import MisuseSlice.Text.RunTable

/-!
Scripts: the writing system to which a code point belongs. Code points of several scripts are in the scripts
Common and Inherited, and unassigned ones in none.
-/
namespace MisuseSlice.Text

/-- The scripts of the code points, as of Unicode 17; a dash stands for none. -/
def scripts : RunTable := .ofText
  "Common65Latin26Common6Latin26Common47Latin1Common15Latin1Common5Latin23Common1Latin31Common1
    Latin449Common39Latin5Common5Bopomofo2Common20Inherited112Greek4Common1Greek3-2Greek4Common1Greek1
    -4Greek1Common1Greek1Common1Greek3-1Greek1-1Greek20-1Greek63Coptic14Greek16Cyrillic133Inherited2
    Cyrillic169-1Armenian38-2Armenian50-2Armenian3-1Hebrew55-8Hebrew27-4Hebrew6-11Arabic5Common1
    Arabic6Common1Arabic14Common1Arabic3Common1Arabic32Common1Arabic10Inherited11Arabic26Inherited1
    Arabic108Common1Arabic34Syriac14-1Syriac60-2Syriac3Arabic48Thaana50-14Nko59-2Nko3Samaritan46-2
    Samaritan15-1Mandaic28-2Mandaic1-1Syriac11-5Arabic34-5Arabic75Common1Arabic29Devanagari81
    Inherited4Devanagari15Common2Devanagari26Bengali4-1Bengali8-2Bengali2-2Bengali22-1Bengali7-1
    Bengali1-3Bengali4-2Bengali9-2Bengali2-2Bengali4-8Bengali1-4Bengali2-1Bengali5-2Bengali25-2
    Gurmukhi3-1Gurmukhi6-4Gurmukhi2-2Gurmukhi22-1Gurmukhi7-1Gurmukhi2-1Gurmukhi2-1Gurmukhi2-2Gurmukhi1
    -1Gurmukhi5-4Gurmukhi2-2Gurmukhi3-3Gurmukhi1-7Gurmukhi4-1Gurmukhi1-7Gurmukhi17-10Gujarati3-1
    Gujarati9-1Gujarati3-1Gujarati22-1Gujarati7-1Gujarati2-1Gujarati5-2Gujarati10-1Gujarati3-1
    Gujarati3-2Gujarati1-15Gujarati4-2Gujarati12-7Gujarati7-1Oriya3-1Oriya8-2Oriya2-2Oriya22-1Oriya7-1
    Oriya2-1Oriya5-2Oriya9-2Oriya2-2Oriya3-7Oriya3-4Oriya2-1Oriya5-2Oriya18-10Tamil2-1Tamil6-3Tamil3-1
    Tamil4-3Tamil2-1Tamil1-1Tamil2-3Tamil2-3Tamil3-3Tamil12-4Tamil5-3Tamil3-1Tamil4-2Tamil1-6Tamil1-14
    Tamil21-5Telugu13-1Telugu3-1Telugu23-1Telugu16-2Telugu9-1Telugu3-1Telugu4-7Telugu2-1Telugu3-1
    Telugu2-2Telugu4-2Telugu10-7Telugu9Kannada13-1Kannada3-1Kannada23-1Kannada10-1Kannada5-2Kannada9-1
    Kannada3-1Kannada4-7Kannada2-5Kannada3-1Kannada4-2Kannada10-1Kannada3-12Malayalam13-1Malayalam3-1
    Malayalam51-1Malayalam3-1Malayalam6-4Malayalam16-2Malayalam26-1Sinhala3-1Sinhala18-3Sinhala24-1
    Sinhala9-1Sinhala1-2Sinhala7-3Sinhala1-4Sinhala6-1Sinhala1-1Sinhala8-6Sinhala10-2Sinhala3-12Thai58
    -4Common1Thai28-37Lao2-1Lao1-1Lao5-1Lao24-1Lao1-1Lao23-2Lao5-1Lao1-1Lao7-1Lao10-2Lao4-32Tibetan72
    -1Tibetan36-4Tibetan39-1Tibetan36-1Tibetan15-1Tibetan7Common4Tibetan2-37Myanmar160Georgian38-1
    Georgian1-5Georgian1-2Georgian43Common1Georgian4Hangul256Ethiopic73-1Ethiopic4-2Ethiopic7-1
    Ethiopic1-1Ethiopic4-2Ethiopic41-1Ethiopic4-2Ethiopic33-1Ethiopic4-2Ethiopic7-1Ethiopic1-1
    Ethiopic4-2Ethiopic15-1Ethiopic57-1Ethiopic4-2Ethiopic67-2Ethiopic32-3Ethiopic26-6Cherokee86-2
    Cherokee6-2Canadian_Aboriginal640Ogham29-3Runic75Common3Runic11-7Tagalog22-9Tagalog1Hanunoo21
    Common2-9Buhid20-12Tagbanwa13-1Tagbanwa3-1Tagbanwa2-12Khmer94-2Khmer10-6Khmer10-6Mongolian2Common2
    Mongolian1Common1Mongolian20-6Mongolian89-7Mongolian43-5Canadian_Aboriginal70-10Limbu31-1Limbu12-4
    Limbu12-4Limbu1-3Limbu12Tai_Le30-2Tai_Le5-11New_Tai_Lue44-4New_Tai_Lue26-6New_Tai_Lue11-3
    New_Tai_Lue2Khmer32Buginese28-2Buginese2Tai_Tham63-1Tai_Tham29-2Tai_Tham11-6Tai_Tham10-6Tai_Tham14
    -2Inherited46-2Inherited12-20Balinese77-1Balinese50Sundanese64Batak52-8Batak4Lepcha56-3Lepcha15-3
    Lepcha3Ol_Chiki48Cyrillic11-5Georgian43-2Georgian3Sundanese8-8Inherited3Common1Inherited13Common1
    Inherited7Common4Inherited1Common6Inherited1Common3Inherited2Common1-5Latin38Greek5Cyrillic1
    Latin49Greek5Latin4Greek5Latin13Cyrillic1Latin70Greek1Inherited64Latin256Greek22-2Greek6-2Greek38
    -2Greek6-2Greek8-1Greek1-1Greek1-1Greek1-1Greek31-2Greek53-1Greek15-1Greek14-2Greek6-1Greek19-2
    Greek3-1Greek9-1Common12Inherited2Common87-1Common11Latin1-2Common11Latin1Common15-1Latin13-3
    Common34-14Inherited33-15Common38Greek1Common3Latin2Common6Latin1Common27Latin1Common17Latin41
    Common3-4Common666-22Common11-21Common928Braille256Common628-2Common138Glagolitic96Latin32
    Coptic116-5Coptic7Georgian38-1Georgian1-5Georgian1-2Tifinagh56-7Tifinagh2-14Tifinagh1Ethiopic23-9
    Ethiopic7-1Ethiopic7-1Ethiopic7-1Ethiopic7-1Ethiopic7-1Ethiopic7-1Ethiopic7-1Ethiopic7-1Cyrillic32
    Common94-34Han26-1Han89-12Han214-26Common21Han1Common1Han1Common25Han9Inherited4Hangul2Common8Han4
    Common4-1Hiragana86-2Inherited2Common2Hiragana3Common1Katakana90Common2Katakana3-5Bopomofo43-1
    Hangul94-1Common16Bopomofo32Common38-9Common1Katakana16Hangul31-1Common64Hangul31Common81
    Katakana47Common1Katakana88Common168Han6592Common64Han20992Yi1165-3Yi55-9Lisu48Vai300-20Cyrillic96
    Bamum88-8Common34Latin102Common3Latin82-20Latin15Syloti_Nagri45-3Common10-6Phags_Pa56-8
    Saurashtra70-8Saurashtra12-6Devanagari32Kayah_Li46Common1Kayah_Li1Rejang36-11Rejang1Hangul29-3
    Javanese78-1Common1Javanese10-4Javanese2Myanmar31-1Cham55-9Cham14-2Cham10-2Cham4Myanmar32
    Tai_Viet67-24Tai_Viet5Meetei_Mayek23-10Ethiopic6-2Ethiopic6-2Ethiopic6-9Ethiopic7-1Ethiopic7-1
    Latin43Common1Latin9Greek1Latin4Common2-4Cherokee80Meetei_Mayek46-2Meetei_Mayek10-6Hangul11172-12
    Hangul23-4Hangul49-8452Han366-2Han106-38Latin7-12Armenian5-5Hebrew26-1Hebrew5-1Hebrew1-1Hebrew2-1
    Hebrew2-1Hebrew10Arabic494Common2Arabic144-32Arabic16Inherited16Common10-6Inherited14Cyrillic2
    Common35-1Common19-1Common4-4Arabic5-1Arabic135-2Common1-1Common32Latin26Common6Latin26Common11
    Katakana10Common1Katakana45Common2Hangul31-3Hangul6-2Hangul6-2Hangul6-2Hangul3-3Common7-1Common7
    -10Common5-2Linear_B12-1Linear_B26-1Linear_B19-1Linear_B2-1Linear_B15-2Linear_B14-34Linear_B123-5
    Common3-4Common45-3Common9Greek79-1Common13-3Greek1-47Common45Inherited1-130Lycian29-3Carian49-15
    Inherited1Common27-4Old_Italic36-9Old_Italic3Gothic27-5Old_Permic43-5Ugaritic30-1Ugaritic1
    Old_Persian36-4Old_Persian14-42Deseret80Shavian48Osmanya30-2Osmanya10-6Osage36-4Osage36-4Elbasan40
    -8Caucasian_Albanian52-11Caucasian_Albanian1Vithkuqi11-1Vithkuqi15-1Vithkuqi7-1Vithkuqi2-1
    Vithkuqi11-1Vithkuqi15-1Vithkuqi7-1Vithkuqi2-3Todhri52-12Linear_A311-9Linear_A22-10Linear_A8-24
    Latin6-1Latin42-1Latin9-69Cypriot6-2Cypriot1-1Cypriot44-1Cypriot2-3Cypriot1-2Cypriot1
    Imperial_Aramaic22-1Imperial_Aramaic9Palmyrene32Nabataean31-8Nabataean9-48Hatran19-1Hatran2-5
    Hatran5Phoenician28-3Phoenician1Lydian26-5Lydian1Sidetic26-38Meroitic_Hieroglyphs32
    Meroitic_Cursive24-4Meroitic_Cursive20-2Meroitic_Cursive46Kharoshthi4-1Kharoshthi2-5Kharoshthi8-1
    Kharoshthi3-1Kharoshthi29-2Kharoshthi3-4Kharoshthi10-7Kharoshthi9-7Old_South_Arabian32
    Old_North_Arabian32-32Manichaean39-4Manichaean12-9Avestan54-3Avestan7Inscriptional_Parthian22-2
    Inscriptional_Parthian8Inscriptional_Pahlavi19-5Inscriptional_Pahlavi8Psalter_Pahlavi18-7
    Psalter_Pahlavi4-12Psalter_Pahlavi7-80Old_Turkic73-55Old_Hungarian51-13Old_Hungarian51-7
    Old_Hungarian6Hanifi_Rohingya40-8Hanifi_Rohingya10-6Garay38-3Garay29-8Garay2-208Arabic31-1Yezidi42
    -1Yezidi3-2Yezidi2-16Arabic6-8Arabic9-33Arabic6Old_Sogdian40-8Sogdian42-22Old_Uyghur26-38
    Chorasmian28-20Elymaic23-9Brahmi78-4Brahmi36-9Brahmi1Kaithi67-10Kaithi1-2Sora_Sompeng25-7
    Sora_Sompeng10-6Chakma53-1Chakma18-8Mahajani39-9Sharada96-1Sinhala20-11Khojki18-1Khojki47-62
    Multani7-1Multani1-1Multani4-1Multani15-1Multani11-6Khudawadi59-5Khudawadi10-6Grantha4-1Grantha8-2
    Grantha2-2Grantha22-1Grantha7-1Grantha2-1Grantha5-1Inherited1Grantha9-2Grantha2-2Grantha3-2
    Grantha1-6Grantha1-5Grantha7-2Grantha7-3Grantha5-11Tulu_Tigalari10-1Tulu_Tigalari1-2Tulu_Tigalari1
    -1Tulu_Tigalari38-1Tulu_Tigalari10-1Tulu_Tigalari1-2Tulu_Tigalari1-1Tulu_Tigalari4-1
    Tulu_Tigalari10-1Tulu_Tigalari2-8Tulu_Tigalari2-29Newa92-1Newa5-30Tirhuta72-8Tirhuta10-166
    Siddham54-2Siddham38-34Modi69-11Modi10-6Mongolian13-19Takri58-6Takri10-6Myanmar20-28Ahom27-2Ahom15
    -4Ahom23-185Dogra60-100Warang_Citi83-12Warang_Citi1Dives_Akuru7-2Dives_Akuru1-2Dives_Akuru8-1
    Dives_Akuru2-1Dives_Akuru30-1Dives_Akuru2-2Dives_Akuru12-9Dives_Akuru10-70Nandinagari8-2
    Nandinagari46-2Nandinagari11-27Zanabazar_Square72-8Soyombo83-13Canadian_Aboriginal16Pau_Cin_Hau57
    -7Devanagari10-86Sharada8-88Sunuwar34-14Sunuwar10-6Bhaiksuki9-1Bhaiksuki45-1Bhaiksuki14-10
    Bhaiksuki29-3Marchen32-2Marchen22-1Marchen14-73Masaram_Gondi7-1Masaram_Gondi2-1Masaram_Gondi44-3
    Masaram_Gondi1-1Masaram_Gondi2-1Masaram_Gondi9-8Masaram_Gondi10-6Gunjala_Gondi6-1Gunjala_Gondi2-1
    Gunjala_Gondi37-1Gunjala_Gondi2-1Gunjala_Gondi6-7Gunjala_Gondi10-6Tolong_Siki44-4Tolong_Siki10-246
    Makasar25-7Kawi17-1Kawi41-3Kawi29-85Lisu1-15Tamil50-13Tamil1Cuneiform922-102Cuneiform111-1
    Cuneiform5-11Cuneiform196-2636Cypro_Minoan99-13Egyptian_Hieroglyphs1110-10Egyptian_Hieroglyphs3995
    -5Anatolian_Hieroglyphs583-6841Gurung_Khema58-1734Bamum569-7Mro31-1Mro10-4Mro2Tangsa79-1Tangsa10-6
    Bassa_Vah30-2Bassa_Vah6-10Pahawh_Hmong70-10Pahawh_Hmong10-1Pahawh_Hmong7-1Pahawh_Hmong21-5
    Pahawh_Hmong19-432Kirat_Rai58-198Medefaidrin91-5Beria_Erfe25-2Beria_Erfe25-44Miao75-4Miao57-7
    Miao17-64Tangut1Nushu1Han2Khitan_Small_Script1-11Han7-9Tangut6912Khitan_Small_Script470-41
    Khitan_Small_Script1Tangut31-97Tangut115-8701Katakana4-1Katakana7-1Katakana2-1Katakana1Hiragana287
    Katakana3-15Hiragana1-29Hiragana3-2Katakana1-14Katakana4-8Nushu396-2308Duployan107-5Duployan13-3
    Duployan9-7Duployan10-2Duployan4Common4-3932Common253-3Common436-6Common23-15Common17-15
    Inherited46-2Inherited23-9Common116-60Common246-10Common39-2Common62Inherited3Common17Inherited8
    Common2Inherited7Common30Inherited4Common61-21Greek70-122Common20-12Common20-12Common87-9Common25
    -135Common85-1Common71-1Common2-2Common1-2Common2-2Common4-1Common12-1Common1-1Common7-1Common65-1
    Common4-2Common8-1Common7-1Common28-1Common4-1Common5-1Common1-3Common7-1Common340-2Common292-2
    Common50SignWriting652-15SignWriting5-1SignWriting15-1104Latin31-6Latin6-213Glagolitic7-1
    Glagolitic17-2Glagolitic7-1Glagolitic2-1Glagolitic5-5Cyrillic62-33Cyrillic1-112
    Nyiakeng_Puachue_Hmong45-3Nyiakeng_Puachue_Hmong14-2Nyiakeng_Puachue_Hmong10-4
    Nyiakeng_Puachue_Hmong2-320Toto31-17Wancho58-5Wancho1-464Nag_Mundari42-214Ol_Onal43-4Ol_Onal1-192
    Tai_Yo31-1Tai_Yo22-8Tai_Yo2-224Ethiopic7-1Ethiopic4-1Ethiopic2-1Ethiopic15-1Mende_Kikakui197-2
    Mende_Kikakui16-41Adlam76-4Adlam10-4Adlam2-785Common68-76Common61-194Arabic4-1Arabic27-1Arabic2-1
    Arabic1-2Arabic1-1Arabic10-1Arabic4-1Arabic1-1Arabic1-6Arabic1-4Arabic1-1Arabic1-1Arabic1-1Arabic3
    -1Arabic2-1Arabic1-2Arabic1-1Arabic1-1Arabic1-1Arabic1-1Arabic1-1Arabic2-1Arabic1-2Arabic4-1
    Arabic7-1Arabic4-1Arabic4-1Arabic1-1Arabic10-1Arabic17-5Arabic3-1Arabic5-1Arabic17-52Arabic2-270
    Common44-4Common100-12Common15-2Common15-1Common15-1Common37-10Common174-56Common26Hiragana1
    Common2-13Common44-4Common9-7Common2-14Common6-154Common985-3Common17-3Common13-3Common218-6
    Common12-4Common1-15Common12-4Common56-8Common10-6Common40-8Common30-2Common12-4Common2-14Common9
    -39Common344-8Common14-2Common13-3Common11-3Common57-1Common1-4Common16-2Common12-4Common10-7
    Common147-1Common103-1029Han42720-32Han4382-2Han5774-2Han7473-15Han622-2466Han542-1506Han4939-5
    Han8490-707463Common1-30Common96-128Inherited240-196112"

/-- The code point belongs to a script. -/
def inScript (name : String) (n : Nat) : Bool := scripts.label n == name

/-- The names of the scripts. -/
def scriptNames : List String := scripts.labels.filter (· != "-")

end MisuseSlice.Text
