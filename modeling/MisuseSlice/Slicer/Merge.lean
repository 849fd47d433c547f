import MisuseSlice.Slicer.State

/-!
Combined slices. The partial slices of the criteria on a way up the tree, from a root to a criterion that
has no further callers, are joined from the top down; the constants that flow down rule out branches.
-/
namespace MisuseSlice

namespace CriteriaTree

/-- The ways up from the first node of `path`, which leads down to the root. Without a further caller the
way ends; no more than `limit` ways are taken unless that is zero. -/
def extendPath (t : CriteriaTree) (limit : Nat) :
    (fuel : Nat) → (path : List Nat) → List (List Nat) → List (List Nat)
  | 0, _, found => found
  | fuel + 1, path, found =>
    let isFull (found : List (List Nat)) : Bool := limit != 0 && limit ≤ found.length
    let callers := match path with | n :: _ => t.callerNumbers n | [] => []
    let (extended, found) := callers.foldl (fun (extended, found) c =>
      if path.contains c || isFull found then (extended, found)
      else (true, extendPath t limit fuel (c :: path) found)) (false, found)
    if !extended && !isFull found then found ++ [path] else found

/-- The ways from top callers down to a criterion. -/
def paths (t : CriteriaTree) (limit : Nat) (root : String) : List (List String) :=
  match t.number? root with
  | none => []
  | some i => (t.extendPath limit (t.order + 1) [i] []).map (·.map t.idOf)

end CriteriaTree

namespace CombinedSlice

/-- Adds a line once. -/
def addLine (c : CombinedSlice) (l : SliceLine) : CombinedSlice :=
  if c.lines.any (·.key == l.key) then c else { c with lines := c.lines ++ [l] }

/-- Adds a slice unless one of the others contains it (`addCombined`); those that it contains go. -/
def insertMaximal (cs : List CombinedSlice) (c : CombinedSlice) : List CombinedSlice :=
  if cs.any (·.contains c) then cs else cs.filter (!c.contains ·) ++ [c]

end CombinedSlice

namespace SlicerState

/-- Joins the slices of the criteria that are left on a path (`combine`). -/
def combineFrom (w : Workspace) (store : SliceStore) :
    List String → KnownValues → CombinedSlice → Ledger → CombinedSlice × Ledger
  | [], _, acc, l => (acc, l)
  | id :: rest, values, acc, l =>
    match store.get? id with
    | none => combineFrom w store rest values acc l
    | some p =>
      match l.openBody w p.caller with
      | (none, l) => combineFrom w store rest values (p.lines.foldl .addLine acc) l
      | (some b, l) =>
        let (drop, values) := b.infeasible w.live (p.retained.map Int.ofNat) values
        let acc := (p.drop drop).lines.foldl .addLine acc
        match rest, b.at? p.start with
        | next :: _, some call =>
          let acc := acc.addLine ⟨p.caller, call⟩
          let values :=
            match store.get? next with
            | some q => values.bindParams p.caller (some call) q.caller
            | none => values
          combineFrom w store rest values acc l
        | _, _ => combineFrom w store rest values acc l

/-- The combined slices of a root, none of which contains another one. They are computed once. -/
def merge (s : SlicerState) (w : Workspace) (root : String) : List CombinedSlice × SlicerState :=
  match s.store.combined? root with
  | some cs => (cs, s)
  | none =>
    let (cs, ledger) :=
      (s.tree.paths w.settings.maxCallerChains.toNat root).foldl (fun (cs, l) path =>
        let (c, l) := combineFrom w s.store path {} { root, path } l
        (CombinedSlice.insertMaximal cs c, l)) ([], s.ledger)
    (cs, { s with ledger, store := s.store.putCombined root cs })

end SlicerState

end MisuseSlice
