import MisuseSlice.Proofs.Folds
import MisuseSlice.Rule.Check

/-! A misuse is reported once. Every match of a check has come from a line of the slice, so a finding keeps at least one
line of its slice under its method and its rule number, and no slice that holds a kept line gives a finding again. -/
namespace MisuseSlice

namespace Evidence

variable {e : Evidence} {lines : List SliceLine} {l : SliceLine} {h : Hit}

/-- What is searched for line by line has come from one of the lines. -/
theorem search_via {f : SliceLine → Option Hit} (leads : ∀ l h, f l = some h → h.via = l)
    (found : search lines f = some h) : h.via ∈ lines := by
  obtain ⟨l, member, here⟩ := List.exists_of_findSome?_eq_some found
  rw [leads l h here]
  exact List.mem_reverse.mp member

theorem searchSub_via {p : SliceLine → Bool} {sub : List SliceLine} (found : searchSub l p sub = some h) : h.via = l := by
  obtain ⟨x, _, rfl⟩ := Option.map_eq_some_iff.mp found
  rfl

theorem findSome?_via {subs : List (List SliceLine)} {f : List SliceLine → Option Hit}
    (leads : ∀ sub h, f sub = some h → h.via = l) (found : subs.findSome? f = some h) : h.via = l := by
  obtain ⟨sub, _, here⟩ := List.exists_of_findSome?_eq_some found
  exact leads sub h here

theorem findCall_via {signatures : List String} (found : e.findCall lines signatures = some h) : h.via ∈ lines := by
  refine search_via (fun l h here => ?_) found
  split at here
  · rw [← Option.some.inj here]
  · exact findSome?_via (fun _ _ => searchSub_via) here

theorem findAlgorithm_via {patterns : List Algorithm.Pattern} (found : e.findAlgorithm lines patterns = some h) :
    h.via ∈ lines := by
  unfold findAlgorithm at found
  dsimp only at found
  split at found
  · cases found
  refine search_via (fun l h here => ?_) found
  split at here
  · rename_i inner
    rw [← Option.some.inj here]
    exact findSome?_via (fun _ _ => searchSub_via) inner
  · split at here
    · rw [← Option.some.inj here]
    · cases here

theorem findConstant_via {c : Condition} (found : e.findConstant lines c = some h) : h.via ∈ lines := by
  refine search_via (fun l h here => ?_) found
  dsimp only at here
  split at here
  · rw [← Option.some.inj here]
  · split at here
    · rw [← Option.some.inj here]
    · exact findSome?_via (fun _ _ => searchSub_via) here

theorem findArray_via {c : Condition} (found : e.findArray lines c = some h) : h.via ∈ lines := by
  unfold findArray at found
  dsimp only at found
  generalize (if c.spec.length != "" then c.spec.length else c.spec.size) = expression at found
  refine search_via (fun l h here => ?_) found
  split at here
  · rw [← Option.some.inj here]
  · refine findSome?_via (fun sub h inner => ?_) here
    cases sub with
    | nil => cases inner
    | cons first rest =>
      dsimp only at inner
      split at inner
      · rw [← Option.some.inj inner]
      · exact searchSub_via inner

/-- What settles a check is its match or the counterpart. -/
theorem settle_eq {secure : Bool} {target counter : Option Hit} (settled : settle secure target counter = some h) :
    target = some h ∨ counter = some h := by
  cases target with
  | none => cases settled
  | some t =>
    cases counter with
    | none => simpa [settle, later] using settled
    | some k => grind [settle, later]

theorem settle_via {secure : Bool} {target counter : Option Hit} (own : ∀ h, target = some h → h.via ∈ lines)
    (other : ∀ h, counter = some h → h.via ∈ lines) (settled : settle secure target counter = some h) :
    h.via ∈ lines := (settle_eq settled).elim (own h) (other h)

variable {caller : String} {secure : Bool} {c : Condition} {counter : Option (RulePattern Condition)} {hs : List Hit}

theorem schemeHits_via (found : e.schemeHits caller lines c = some hs) : ∀ h ∈ hs, h.via ∈ lines := by
  unfold schemeHits at found
  split at found
  · rename_i cipher code ends feeds
    have both : hs = [cipher, code] := by grind
    simp only [both, List.forall_mem_cons]
    exact ⟨findCall_via ends, findCall_via feeds, fun _ none => absurd none List.not_mem_nil⟩
  · cases found

/-- A match of a check has come from a line of the slice. -/
theorem checkHits_via {check : Check} (found : e.checkHits caller secure c counter lines check = some hs) :
    ∀ h ∈ hs, h.via ∈ lines := by
  have one : ∀ {target counter : Option Hit}, (∀ h, target = some h → h.via ∈ lines) →
      (∀ h, counter = some h → h.via ∈ lines) → (settle secure target counter).map ([·]) = some hs →
      ∀ h ∈ hs, h.via ∈ lines := by
    intro target counter own other settled
    obtain ⟨t, here, rfl⟩ := Option.map_eq_some_iff.mp settled
    exact List.forall_mem_singleton.mpr (settle_via own other here)
  cases check with
  | schemeTypes => exact schemeHits_via found
  | algorithms => exact one (fun _ => findAlgorithm_via) (fun _ => findAlgorithm_via) found
  | signatures => exact one (fun _ => findCall_via) (fun _ => findCall_via) found
  | constant =>
    refine one (fun h target => ?_) (fun _ => findCall_via) found
    split at target
    · exact findArray_via target
    · exact findConstant_via target

/-- A match of a condition has come from a line of the slice. -/
theorem hits_via (found : e.hits caller secure c counter lines = some hs) : ∀ h ∈ hs, h.via ∈ lines := by
  obtain ⟨parts, checked, rfl⟩ := Option.map_eq_some_iff.mp found
  intro h member
  obtain ⟨part, inside, here⟩ := List.mem_flatten.mp member
  obtain ⟨check, _, hit⟩ := mem_of_mapM_eq_some checked part inside
  exact checkHits_via hit h here

end Evidence

/-- A pattern of a rule that is tried on the lines of a slice of a seed. -/
structure Trial where
  seed : Criterion
  rule : Rule
  secure : Bool
  pattern : RulePattern Condition
  lines : List SliceLine

namespace Trial

/-- What findings of the trial are kept under. -/
def name (t : Trial) : String := Checker.foundKey t.seed t.rule

/-- The matches of the first condition that has some. -/
def hits? (e : Evidence) (t : Trial) : Option (List Hit) :=
  t.pattern.conditions.findSome? fun c =>
    (e.hits t.seed.caller t.secure c t.rule.secure t.lines).filter fun hits => !hits.isEmpty

theorem hits?_via {e : Evidence} {t : Trial} {hits : List Hit} (found : t.hits? e = some hits) :
    hits ≠ [] ∧ ∀ h ∈ hits, h.via ∈ t.lines := by
  obtain ⟨c, _, here⟩ := List.exists_of_findSome?_eq_some found
  obtain ⟨matched, some⟩ := Option.filter_eq_some_iff.mp here
  refine ⟨?_, Evidence.hits_via matched⟩
  rintro rfl
  cases some

end Trial

/-- A trial that gave a finding, with the lines of the slice that are kept for it. -/
structure Notice extends Trial where
  finding : Finding
  matched : List SliceLine

/-- The finding is that of the trial, and rests on lines of the slice. -/
structure Notice.Grounded (r : Notice) : Prop where
  ruleId : r.finding.ruleId = r.pattern.id
  secure : r.finding.secure = r.secure
  caller : r.finding.caller = r.seed.caller
  some : r.matched ≠ []
  inside : ∀ l ∈ r.matched, l ∈ r.lines

namespace Checker

variable {c : Checker} {t : Trial} {seed : Criterion} {slice : CombinedSlice}

/-- The trials of a check, in their order. -/
def trials (c : Checker) (seed : Criterion) (slice : CombinedSlice) : List Trial :=
  (c.rulesFor seed).flatMap fun r =>
    r.patterns.map fun p => ⟨seed, r, p.1, p.2, c.withSeed seed slice.lines⟩

/-- One trial: its notice, and what is kept after it. -/
def attempt (c : Checker) (t : Trial) : Option Notice × Checker :=
  let after := c.checkPattern t.seed t.rule t.secure t.pattern t.lines
  (after.1.map fun f => ⟨t, f, ((t.hits? c.evidence).getD []).map (·.via)⟩, after.2)

/-- The notices of trials one after another. -/
def notices (c : Checker) (ts : List Trial) : List Notice × Checker :=
  collect (fun c t => ((c.attempt t).1.toList, (c.attempt t).2)) c ts

/-- The findings of checks one after another. -/
def checkAll (c : Checker) (calls : List (Criterion × CombinedSlice)) : List Finding × Checker :=
  collect (fun c call => c.check call.1 call.2) c calls

/-- The trials of checks one after another. -/
def trialsOf (c : Checker) (calls : List (Criterion × CombinedSlice)) : List Trial :=
  calls.flatMap fun call => c.trials call.1 call.2

/-- What a trial does: it gives nothing and keeps nothing, or it keeps at least one line of a slice without kept lines. -/
theorem attempt_cases (c : Checker) (t : Trial) :
    c.attempt t = (none, c) ∨
      ∃ (r : Notice) (log : Log), r.toTrial = t ∧ r.Grounded ∧ (∀ l ∈ t.lines, l.key ∉ c.found.getD t.name []) ∧
        c.attempt t = (some r, { c with
          found := c.found.insert t.name (r.matched.map (·.key) ++ c.found.getD t.name []), log := log }) := by
  unfold attempt checkPattern
  dsimp only
  split
  · exact .inl rfl
  rename_i fresh
  have unseen : ∀ l ∈ t.lines, l.key ∉ c.found.getD t.name [] := by
    intro l member kept
    exact fresh (List.any_eq_true.mpr ⟨l, member, List.contains_iff_mem.mpr kept⟩)
  split
  · exact .inl rfl
  rename_i hits found
  have hits? : t.hits? c.evidence = some hits := by
    rw [← found, Trial.hits?]
    congr 1
    funext cond
    rcases c.evidence.hits t.seed.caller t.secure cond t.rule.secure t.lines with _ | _ | _ <;> rfl
  obtain ⟨some, inside⟩ := Trial.hits?_via hits?
  have keys : hits.map (·.via.key) = (hits.map (·.via)).map (·.key) := by
    rw [List.map_map]
    rfl
  rw [hits?, keys]
  exact .inr ⟨⟨t, _, hits.map (·.via)⟩, _, rfl, ⟨rfl, rfl, rfl, by simpa using some, by simpa using inside⟩, unseen, rfl⟩

theorem attempt_keeps (c : Checker) (t : Trial) :
    (c.attempt t).2.rules = c.rules ∧ (c.attempt t).2.evidence = c.evidence := by
  rcases c.attempt_cases t with same | ⟨r, log, _, _, _, same⟩ <;> rw [same] <;> exact ⟨rfl, rfl⟩

theorem attempt_notice {r : Notice} (reported : (c.attempt t).1 = some r) :
    r.toTrial = t ∧ r.Grounded ∧ ∀ l ∈ r.lines, l.key ∉ c.found.getD r.name [] := by
  rcases c.attempt_cases t with same | ⟨r', log, rfl, grounded, unseen, same⟩
  · rw [same] at reported
    cases reported
  · rw [same] at reported
    obtain rfl := Option.some.inj reported
    exact ⟨rfl, grounded, unseen⟩

/-- A trial keeps what was kept, and what it gives notice of. -/
theorem mem_attempt_found {name key : String} :
    key ∈ (c.attempt t).2.found.getD name [] ↔ key ∈ c.found.getD name [] ∨
      ∃ r ∈ (c.attempt t).1.toList, r.name = name ∧ ∃ l ∈ r.matched, l.key = key := by
  rcases c.attempt_cases t with same | ⟨r, log, rfl, _, _, same⟩ <;> rw [same]
  · simp
  · by_cases own : r.name = name
    · subst own
      simp [or_comm]
    · simp [Std.TreeMap.getD_insert, own]

variable {ts : List Trial}

theorem notices_nil : c.notices [] = ([], c) := collect_nil

theorem notices_cons : c.notices (t :: ts) =
    ((c.attempt t).1.toList ++ ((c.attempt t).2.notices ts).1, ((c.attempt t).2.notices ts).2) := collect_cons

theorem notices_append {us : List Trial} : c.notices (ts ++ us) =
    ((c.notices ts).1 ++ ((c.notices ts).2.notices us).1, ((c.notices ts).2.notices us).2) := collect_append

/-- After the trials are kept: what was kept before, and what the notices matched. -/
theorem mem_notices_found {name key : String} :
    key ∈ (c.notices ts).2.found.getD name [] ↔ key ∈ c.found.getD name [] ∨
      ∃ r ∈ (c.notices ts).1, r.name = name ∧ ∃ l ∈ r.matched, l.key = key := by
  induction ts generalizing c with
  | nil => simp [notices_nil]
  | cons t ts ih =>
    rw [notices_cons, ih, mem_attempt_found]
    simp only [List.mem_append, or_and_right, exists_or, or_assoc]

theorem notices_grounded (c : Checker) (ts : List Trial) :
    ∀ r ∈ (c.notices ts).1, r.toTrial ∈ ts ∧ r.Grounded := by
  induction ts generalizing c with
  | nil => simp [notices_nil]
  | cons t ts ih =>
    intro r member
    rw [notices_cons] at member
    rcases List.mem_append.mp member with here | later
    · obtain ⟨rfl, grounded, _⟩ := attempt_notice (Option.mem_toList.mp here)
      exact ⟨List.mem_cons_self, grounded⟩
    · obtain ⟨tried, grounded⟩ := ih _ r later
      exact ⟨List.mem_cons_of_mem _ tried, grounded⟩

/-- No slice that gives a finding holds a line that was kept before. -/
theorem notices_fresh (c : Checker) (ts : List Trial) :
    ∀ r ∈ (c.notices ts).1, ∀ l ∈ r.lines, l.key ∉ c.found.getD r.name [] := by
  induction ts generalizing c with
  | nil => simp [notices_nil]
  | cons t ts ih =>
    intro r member l line kept
    rw [notices_cons] at member
    rcases List.mem_append.mp member with here | later
    · exact (attempt_notice (Option.mem_toList.mp here)).2.2 l line kept
    · exact ih _ r later l line (mem_attempt_found.mpr (.inl kept))

/-- No slice that gives a finding holds a line of an earlier one of its method and rule number. -/
theorem notices_apart (c : Checker) (ts : List Trial) :
    (c.notices ts).1.Pairwise fun r later => r.name = later.name → ∀ l ∈ later.lines, l.key ∉ r.matched.map (·.key) := by
  induction ts generalizing c with
  | nil => simp [notices_nil]
  | cons t ts ih =>
    rw [notices_cons, List.pairwise_append]
    refine ⟨?_, ih _, fun r here later reported same l line matched => ?_⟩
    · cases (c.attempt t).1 <;> simp
    · obtain ⟨m, inside, key⟩ := List.mem_map.mp matched
      exact notices_fresh _ ts later reported l line (mem_attempt_found.mpr (.inr ⟨r, here, same, m, inside, key⟩))

theorem notices_keeps (c : Checker) (ts : List Trial) :
    (c.notices ts).2.rules = c.rules ∧ (c.notices ts).2.evidence = c.evidence := by
  induction ts generalizing c with
  | nil => exact ⟨rfl, rfl⟩
  | cons t ts ih =>
    rw [notices_cons]
    exact ⟨(ih _).1.trans (c.attempt_keeps t).1, (ih _).2.trans (c.attempt_keeps t).2⟩

/-- What is kept has no influence on the trials. -/
theorem trials_notices (c : Checker) (ts : List Trial) (seed : Criterion) (slice : CombinedSlice) :
    (c.notices ts).2.trials seed slice = c.trials seed slice := by
  obtain ⟨rules, evidence⟩ := c.notices_keeps ts
  unfold trials rulesFor withSeed
  rw [rules, evidence]

/-- A check gives the findings of its trials. -/
theorem check_eq (c : Checker) (seed : Criterion) (slice : CombinedSlice) :
    c.check seed slice =
      ((c.notices (c.trials seed slice)).1.map (·.finding), (c.notices (c.trials seed slice)).2) := by
  have tried : ∀ (tasks : List (Rule × Bool × RulePattern Condition)) (lines : List SliceLine) (c : Checker),
      collect (fun c task => ((c.checkPattern seed task.1 task.2.1 task.2.2 lines).1.toList,
        (c.checkPattern seed task.1 task.2.1 task.2.2 lines).2)) c tasks =
      ((c.notices (tasks.map fun task => ⟨seed, task.1, task.2.1, task.2.2, lines⟩)).1.map (·.finding),
        (c.notices (tasks.map fun task => ⟨seed, task.1, task.2.1, task.2.2, lines⟩)).2) := by
    intro tasks lines
    induction tasks with
    | nil => simp [collect_nil, notices_nil]
    | cons task tasks ih =>
      intro c
      rw [collect_cons, List.map_cons, notices_cons, ih]
      simp only [attempt, List.map_append, Option.toList_map, List.map_map, Function.comp_def, List.map_id']
  refine (tried _ (c.withSeed seed slice.lines) c).trans ?_
  rw [trials, List.map_flatMap]
  simp only [List.map_map, Function.comp_def]

/-- Checks give the findings of all their trials. -/
theorem checkAll_eq (c : Checker) (calls : List (Criterion × CombinedSlice)) :
    c.checkAll calls = ((c.notices (c.trialsOf calls)).1.map (·.finding), (c.notices (c.trialsOf calls)).2) := by
  induction calls generalizing c with
  | nil => rfl
  | cons call calls ih =>
    have same : (c.notices (c.trials call.1 call.2)).2.trialsOf calls = c.trialsOf calls := by
      simp only [trialsOf, trials_notices]
    have all : c.trialsOf (call :: calls) = c.trials call.1 call.2 ++ c.trialsOf calls := rfl
    have first : c.checkAll (call :: calls) = ((c.check call.1 call.2).1 ++ ((c.check call.1 call.2).2.checkAll calls).1,
        ((c.check call.1 call.2).2.checkAll calls).2) := collect_cons
    rw [first, check_eq, ih, same, all, notices_append, List.map_append]

/-- What one check gives notice of has different rule numbers. -/
theorem check_numbers (c : Checker) (seed : Criterion) (slice : CombinedSlice) :
    ((c.notices (c.trials seed slice)).1.map (·.rule.number)).Nodup := by
  refine List.pairwise_map.mpr ((c.notices_apart _).imp_of_mem fun {r later} first second apart same => ?_)
  have tried : ∀ t ∈ c.trials seed slice, t.seed = seed ∧ t.lines = c.withSeed seed slice.lines := by
    intro t member
    obtain ⟨rule, _, inner⟩ := List.mem_flatMap.mp member
    obtain ⟨p, _, rfl⟩ := List.mem_map.mp inner
    exact ⟨rfl, rfl⟩
  obtain ⟨firstTried, grounded⟩ := c.notices_grounded _ r first
  obtain ⟨laterTried, _⟩ := c.notices_grounded _ later second
  have name : r.name = later.name := by
    rw [Trial.name, Trial.name, Checker.foundKey, Checker.foundKey, (tried _ firstTried).1, (tried _ laterTried).1, same]
  have lines : r.lines = later.lines := (tried _ firstTried).2.trans (tried _ laterTried).2.symm
  obtain ⟨l, matched⟩ := List.exists_mem_of_ne_nil _ grounded.some
  exact apart name l (lines ▸ grounded.inside l matched) (List.mem_map_of_mem matched)

/-- A misuse is reported once. Whatever was kept before, the findings of checks one after another are those of trials that
matched some lines of their slice, which is all that is kept in the end; a later slice that gives a finding for the same
method and rule number holds none of these lines; and one check gives at most one finding for a rule number. -/
theorem checkAll_reports_once (c : Checker) (calls : List (Criterion × CombinedSlice)) :
    let notices := (c.notices (c.trialsOf calls)).1
    (c.checkAll calls).1 = notices.map (·.finding) ∧
    (∀ r ∈ notices, r.toTrial ∈ c.trialsOf calls ∧ r.Grounded) ∧
    (∀ name key, key ∈ (c.checkAll calls).2.found.getD name [] ↔
      key ∈ c.found.getD name [] ∨ ∃ r ∈ notices, r.name = name ∧ ∃ l ∈ r.matched, l.key = key) ∧
    (notices.Pairwise fun r later => r.seed.caller = later.seed.caller → r.rule.number = later.rule.number →
      ∀ l ∈ later.lines, l.key ∉ r.matched.map (·.key)) ∧
    ∀ seed slice, let notices := (c.notices (c.trials seed slice)).1
      (c.check seed slice).1 = notices.map (·.finding) ∧ (notices.map (·.rule.number)).Nodup := by
  intro notices
  have all := c.checkAll_eq calls
  refine ⟨congrArg (·.1) all, c.notices_grounded _, fun name key => ?_, ?_, fun seed slice => ?_⟩
  · rw [congrArg (·.2) all]
    exact mem_notices_found
  · refine (c.notices_apart _).imp fun {r later} apart caller number => apart ?_
    rw [Trial.name, Trial.name, foundKey, foundKey, caller, number]
  · exact ⟨congrArg (·.1) (c.check_eq seed slice), c.check_numbers seed slice⟩

end Checker

end MisuseSlice
