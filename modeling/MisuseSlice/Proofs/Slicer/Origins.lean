import MisuseSlice.Proofs.Slicer.Waiting

/-! The criteria that slicing some roots can bring about. Each of them stands at a statement of a prepared
body, and the statement is a call exactly when the criterion is one of a call. So, where two criteria share
a name only if they are the same, a name tells whether its criterion stands at a call. -/
namespace MisuseSlice

namespace Criterion

/-- What makes two criteria the same: caller, target, place and values of interest. -/
structure SameAs (c k : Criterion) : Prop where
  caller : c.caller = k.caller
  target : c.target = k.target
  start : c.start = k.start
  targets : c.targets.map (·.text) = k.targets.map (·.text)

/-- Criteria that are the same have one name. -/
theorem SameAs.id {c k : Criterion} (same : c.SameAs k) : c.id = k.id := by
  simp only [Criterion.id, fingerprint, same.caller, same.target, same.start, same.targets]

/-- The criteria that slicing the roots can bring about. -/
inductive Arises (w : Workspace) (roots : List Criterion) : Criterion → Prop where
  | root {r : Criterion} (given : r ∈ roots) : Arises w roots r
  | spawned {c k : Criterion} (arises : Arises w roots c) (spawned : SpawnedBy w c k) : Arises w roots k
  | called {c k : Criterion} (arises : Arises w roots c) (called : CalledBy w c k) : Arises w roots k
  | merged {old k : Criterion} (first : Arises w roots old) (second : Arises w roots k)
      (kind : old.kind = .parameter) (kind' : k.kind = .parameter)
      (call : SlicerState.callKey old = SlicerState.callKey k) : Arises w roots (SlicerState.merged old k)

/-- What holds of the roots, of the returns of a called method, of the writes of a field that is read, of calls of a method
and of merged criteria holds of all that arises. -/
theorem Arises.holds_of {w : Workspace} {roots : List Criterion} {P : Criterion → Prop} (start : ∀ r ∈ roots, P r)
    (spawns : ∀ c, P c → ∀ u ∈ ((w.body? c.caller).map Body.whole).getD [],
      (u.kind = .assignVariableField → ∀ method ∈ w.graph.accessorSignatures u.fieldSignature,
        ∀ k ∈ created w method u.fieldSignature .fieldWrite [] (c.level + 1), P k) ∧
      (u.kind.isInvoke = true → ∀ k ∈ created w u.signature u.signature .returned [] (c.level - 1), P k))
    (calls : ∀ c, P c → ∀ site ∈ SlicerState.callSites w c.caller, ∀ params,
      ∀ k ∈ created w site.1 site.2 .parameter params (c.level + 1), P k)
    (merges : ∀ c k, P c → P k → c.kind = .parameter → k.kind = .parameter → P (SlicerState.merged c k))
    {c : Criterion} (arises : Arises w roots c) : P c := by
  induction arises with
  | root given => exact start _ given
  | spawned _ spawned ih =>
    cases spawned with
    | @returned b u _ found visited call _ here =>
      exact (spawns _ ih u (by rw [found]; exact visited)).2 call _ here
    | @written b u method _ found visited read _ accesses here =>
      exact (spawns _ ih u (by rw [found]; exact visited)).1 read method accesses _ here
  | called _ called ih =>
    obtain ⟨_, site, inside, params, here⟩ := called
    exact calls _ ih site inside params _ here
  | merged _ _ kind kind' _ ih ih' => exact merges _ _ ih ih' kind kind'

/-- Where no field is read, what holds of the roots, of the returns of a called method, of calls of a method and of merged
criteria holds of all that arises. -/
theorem Arises.holds_of_fieldless {w : Workspace} {roots : List Criterion} {P : Criterion → Prop}
    (start : ∀ r ∈ roots, P r)
    (spawns : ∀ c, P c → ∀ u ∈ ((w.body? c.caller).map Body.whole).getD [], u.kind ≠ .assignVariableField ∧
      (u.kind.isInvoke = true → ∀ k ∈ created w u.signature u.signature .returned [] (c.level - 1), P k))
    (calls : ∀ c, P c → ∀ site ∈ SlicerState.callSites w c.caller, ∀ params,
      ∀ k ∈ created w site.1 site.2 .parameter params (c.level + 1), P k)
    (merges : ∀ c k, P c → P k → c.kind = .parameter → k.kind = .parameter → P (SlicerState.merged c k))
    {c : Criterion} (arises : Arises w roots c) : P c :=
  arises.holds_of start
    (fun c here u visited => ⟨fun read => absurd read (spawns c here u visited).1, (spawns c here u visited).2⟩) calls merges

/-- The criteria that were asked for in the first place: calls of a method, on the first level. -/
def IsRoot (w : Workspace) (r : Criterion) : Prop :=
  ∃ caller target positions, r ∈ created w caller target .invoke positions 0

/-- The criterion stands at a statement of a body, which is a call exactly for criteria of calls. -/
structure Seated (w : Workspace) (c : Criterion) (b : Body) (u : Statement) : Prop where
  found : w.body? c.caller = some b
  statement : b.source[c.pos]? = some u
  seeded : c.SeededIn b
  call : c.AtCall ↔ u.kind.isInvoke = true

variable {w : Workspace} {roots : List Criterion} {c k : Criterion}

theorem StandsAt.call_iff {b : Body} {u : Statement} (stands : c.StandsAt b u) :
    c.AtCall ↔ u.kind.isInvoke = true := by
  obtain ⟨_, _, seed, values, _⟩ := stands
  unfold AtCall
  cases kind : c.kind with
  | invoke | parameter =>
    rw [kind] at values
    by_cases invokes : u.kind.isInvoke = true
    · simp [invokes]
    · simp [valuesOf, invokes] at values
  | returned =>
    rw [kind] at seed
    have returns : u.kind = .returnValue := by simpa [isSeed] using seed
    simp [returns, Kind.isInvoke]
  | fieldWrite =>
    rw [kind] at seed
    have writes : u.kind = .assignFieldVariable := by
      simp only [isSeed, Bool.and_eq_true, beq_iff_eq] at seed
      exact seed.1
    simp [writes, Kind.isInvoke]

theorem seated_of_created {caller target : String} {kind : SeedKind} {positions : List Int} {level : Int}
    (prepared : ∀ method b, w.body? method = some b → b.Prepared)
    (here : c ∈ created w caller target kind positions level) : ∃ b u, Seated w c b u := by
  obtain ⟨⟨rfl, _⟩, b, u, found, stands⟩ := mem_created (prepared caller) here
  exact ⟨b, u, found, stands.statement, stands.seeded, stands.call_iff⟩

/-- Whatever roots that stand at statements bring about stands at one too. -/
theorem Arises.seated_of (prepared : ∀ method b, w.body? method = some b → b.Prepared)
    (seated : ∀ r ∈ roots, ∃ b u, Seated w r b u) (arises : Arises w roots c) : ∃ b u, Seated w c b u := by
  induction arises with
  | root given => exact seated _ given
  | spawned _ spawned =>
    cases spawned with
    | returned _ _ _ _ here => exact seated_of_created prepared here
    | written _ _ _ _ _ here => exact seated_of_created prepared here
  | called _ called =>
    obtain ⟨_, _, _, _, here⟩ := called
    exact seated_of_created prepared here
  | merged _ _ _ _ _ first _ =>
    obtain ⟨b, u, found, statement, seeded, call⟩ := first
    exact ⟨b, u, found, statement, ⟨seeded.inside, seeded.mirrored⟩, call⟩

theorem IsRoot.seated {r : Criterion} (prepared : ∀ method b, w.body? method = some b → b.Prepared)
    (asked : IsRoot w r) : ∃ b u, Seated w r b u := by
  obtain ⟨_, _, _, here⟩ := asked
  exact seated_of_created prepared here

/-- Criteria of one method and place stand at the same position. -/
theorem Seated.pos_eq {b b' : Body} {u u' : Statement} (first : Seated w c b u) (second : Seated w k b' u')
    (caller : c.caller = k.caller) (start : c.start = k.start) : c.pos = k.pos := by
  obtain rfl : b = b' := Option.some.inj (first.found.symm.trans (caller ▸ second.found))
  have here := first.seeded.mirrored
  have there := second.seeded.mirrored
  have inside := first.seeded.inside
  have inside' := second.seeded.inside
  simp only [Body.mirror] at here there
  omega

/-- Criteria of one method and place stand at the same statement. -/
theorem Seated.call_of_same {b b' : Body} {u u' : Statement} (first : Seated w c b u)
    (second : Seated w k b' u') (same : c.SameAs k) : c.AtCall ↔ k.AtCall := by
  have place := first.pos_eq second same.caller same.start
  obtain rfl : b = b' := Option.some.inj (first.found.symm.trans (same.caller ▸ second.found))
  obtain rfl : u = u' := Option.some.inj (first.statement.symm.trans (place ▸ second.statement))
  exact first.call.trans second.call.symm

/-- No two of the criteria share a name by accident. -/
def Distinct (A : Criterion → Prop) : Prop := ∀ c k, A c → A k → c.id = k.id → c.SameAs k

/-- What the roots bring about is closed where no two criteria share a name by accident. -/
theorem Arises.closed_of (prepared : ∀ method b, w.body? method = some b → b.Prepared)
    (seated : ∀ r ∈ roots, ∃ b u, Seated w r b u) (distinct : Distinct (Arises w roots)) :
    Closed w (Arises w roots) where
  spawned _ _ := .spawned
  called _ _ := .called
  merged _ _ := .merged
  apart c k arises arises' name call := by
    obtain ⟨b, u, first⟩ := arises.seated_of prepared seated
    obtain ⟨b', u', second⟩ := arises'.seated_of prepared seated
    exact (first.call_of_same second (distinct c k arises arises' name)).mp call

theorem Arises.closed (prepared : ∀ method b, w.body? method = some b → b.Prepared)
    (asked : ∀ r ∈ roots, IsRoot w r) (distinct : Distinct (Arises w roots)) : Closed w (Arises w roots) :=
  closed_of prepared (fun r given => (asked r given).seated prepared) distinct

theorem IsRoot.atCall {r : Criterion} (asked : IsRoot w r) : r.AtCall := by
  obtain ⟨_, _, _, here⟩ := asked
  exact .inl (kind_of_created here)

/-- The criterion is one of the same call, and tracks all values that the other one tracks. -/
structure Covers (m r : Criterion) : Prop where
  caller : m.caller = r.caller
  target : m.target = r.target
  start : m.start = r.start
  targets : ∀ v ∈ r.targets, v.isAbsent = false → v.text ∈ m.targets.map (·.text)

theorem Covers.refl (r : Criterion) : r.Covers r := ⟨rfl, rfl, rfl, fun _ tracked _ => List.mem_map_of_mem tracked⟩

theorem Covers.trans {m n r : Criterion} (first : m.Covers n) (second : n.Covers r) : m.Covers r := by
  refine ⟨first.caller.trans second.caller, first.target.trans second.target, first.start.trans second.start, ?_⟩
  intro v tracked there
  obtain ⟨v', tracked', same⟩ := List.mem_map.mp (second.targets v tracked there)
  rw [← same]
  exact first.targets v' tracked' (by simpa [Value.isAbsent, same] using there)

theorem SameAs.covers (same : c.SameAs k) : c.Covers k := by
  refine ⟨same.caller, same.target, same.start, ?_⟩
  intro v tracked _
  rw [same.targets]
  exact List.mem_map_of_mem tracked

/-- A merged criterion covers the one that it stands in for. -/
theorem merged_covers (old k : Criterion) : (SlicerState.merged old k).Covers old := by
  refine ⟨rfl, rfl, rfl, ?_⟩
  intro v tracked there
  exact ValueSet.mem_texts_ofList.mpr
    ⟨v, List.mem_append_left _ tracked, by simpa [Value.isAbsent] using there, rfl⟩

end Criterion

end MisuseSlice
