import Mathlib.Data.Finmap
import Sockrocket.Rust.Text

/-!
# Members of proxy groups

`config/group.rs` finds the nodes of a group by their fingerprints in two ways: `resolve_members` and
`selected_member` scan the node list, `NodeIndex` looks in a map that is built once. Traffic is routed
by one and diagnosed by the other; `indexed_group_resolution` says that they agree, whatever the
fingerprint of a node is.
-/

namespace Sockrocket

open Rust List

/-- The fields of `ProxyGroupConfig` that say which node is used. -/
structure ProxyGroupMembers where
  members : List Str
  current : Option Str

section

variable {Node : Type*} (nodeFingerprint : Node → Str)

/-- `nodes.iter().position(|n| node_fingerprint(n) == *fp)`. -/
def nodePosition (nodes : List Node) (fingerprint : Str) : Option Nat :=
  nodes.findIdx? fun node => nodeFingerprint node = fingerprint

/-- `resolve_members`. -/
def resolveMembers (group : ProxyGroupMembers) (nodes : List Node) : List Nat :=
  group.members.filterMap (nodePosition nodeFingerprint nodes)

/-- `selected_member`. The positions are those of nodes, so no index is out of range. -/
def selectedMember (group : ProxyGroupMembers) (nodes : List Node) : Option Nat :=
  match group.current with
  | some current =>
    (resolveMembers nodeFingerprint group nodes).find? fun i =>
      nodes[i]?.map nodeFingerprint = some current
  | none => (resolveMembers nodeFingerprint group nodes).head?

/-- `NodeIndex`. -/
abbrev NodeIndex := Finmap fun _ : Str => Nat

namespace NodeIndex

/-- `index.entry(node_fingerprint(node)).or_insert(position)`. -/
def orInsert (index : NodeIndex) (entry : Node × Nat) : NodeIndex :=
  if nodeFingerprint entry.1 ∈ index then index
  else index.insert (nodeFingerprint entry.1) entry.2

/-- `NodeIndex::new`. -/
def new (nodes : List Node) : NodeIndex :=
  nodes.zipIdx.foldl (orInsert nodeFingerprint) ∅

/-- `NodeIndex::resolve_members`. -/
def resolveMembers (index : NodeIndex) (group : ProxyGroupMembers) : List Nat :=
  group.members.filterMap index.lookup

/-- `NodeIndex::selected_member`. -/
def selectedMember (index : NodeIndex) (group : ProxyGroupMembers) : Option Nat :=
  match group.current with
  | some current => if current ∈ group.members then index.lookup current else none
  | none => group.members.findSome? index.lookup

end NodeIndex

variable {nodeFingerprint}

/-- A later node does not replace an earlier one. -/
theorem lookup_orInsert (index : NodeIndex) (node : Node) (position : Nat) (fingerprint : Str) :
    (index.orInsert nodeFingerprint (node, position)).lookup fingerprint =
      (index.lookup fingerprint).or
        (if nodeFingerprint node = fingerprint then some position else none) := by
  unfold NodeIndex.orInsert
  by_cases hfirst : nodeFingerprint node = fingerprint
  · subst hfirst
    by_cases hmem : nodeFingerprint node ∈ index
    · obtain ⟨old, hold⟩ := Option.isSome_iff_exists.mp (Finmap.lookup_isSome.mpr hmem)
      simp [hmem, hold]
    · simp [hmem, Finmap.lookup_eq_none.mpr hmem]
  · rw [if_neg hfirst, Option.or_none]
    split
    · rfl
    · exact Finmap.lookup_insert_of_ne _ (Ne.symm hfirst)

theorem nodePosition_cons (node : Node) (rest : List Node) (fingerprint : Str) :
    nodePosition nodeFingerprint (node :: rest) fingerprint =
      if nodeFingerprint node = fingerprint then some 0
      else (nodePosition nodeFingerprint rest fingerprint).map (· + 1) := by
  simp [nodePosition, findIdx?_cons]

/-- The index holds the position of the first node of each fingerprint. -/
theorem lookup_new (nodes : List Node) (fingerprint : Str) :
    (NodeIndex.new nodeFingerprint nodes).lookup fingerprint =
      nodePosition nodeFingerprint nodes fingerprint := by
  -- the fold from any position and index on
  have hfold : ∀ (start : Nat) (index : NodeIndex),
      ((nodes.zipIdx start).foldl (NodeIndex.orInsert nodeFingerprint) index).lookup fingerprint =
        (index.lookup fingerprint).or
          ((nodePosition nodeFingerprint nodes fingerprint).map (start + ·)) := by
    induction nodes with
    | nil => simp [nodePosition]
    | cons node rest ih =>
      intro start index
      rw [zipIdx_cons, foldl_cons, ih, lookup_orInsert, Option.or_assoc, nodePosition_cons]
      by_cases hfirst : nodeFingerprint node = fingerprint
      · simp [hfirst]
      · simp [hfirst, Function.comp_def, add_assoc, add_comm 1]
  have hnew := hfold 0 ∅
  rw [NodeIndex.new, hnew]
  simp

theorem fingerprint_of_nodePosition {nodes : List Node} {fingerprint : Str} {i : Nat}
    (h : nodePosition nodeFingerprint nodes fingerprint = some i) :
    nodes[i]?.map nodeFingerprint = some fingerprint := by
  obtain ⟨hlt, hfound, -⟩ := findIdx?_eq_some_iff_getElem.mp h
  rw [getElem?_eq_getElem hlt, Option.map_some, of_decide_eq_true hfound]

/-- The scan finds the stored selection if it is a member, and then at its own position. -/
theorem find?_resolveMembers (members : List Str) (nodes : List Node) (current : Str) :
    (members.filterMap (nodePosition nodeFingerprint nodes)).find?
        (fun i => nodes[i]?.map nodeFingerprint = some current) =
      if current ∈ members then nodePosition nodeFingerprint nodes current else none := by
  induction members with
  | nil => rfl
  | cons member rest ih =>
    by_cases hcurrent : member = current
    · subst hcurrent
      cases hposition : nodePosition nodeFingerprint nodes member with
      | none =>
        rw [filterMap_cons_none hposition, ih, hposition]
        simp
      | some i =>
        rw [filterMap_cons_some hposition,
          find?_cons_of_pos (by simp [fingerprint_of_nodePosition hposition])]
        simp
    · have hmem : current ∈ member :: rest ↔ current ∈ rest := by
        rw [mem_cons, or_iff_right (Ne.symm hcurrent)]
      cases hposition : nodePosition nodeFingerprint nodes member with
      | none => simp only [filterMap_cons_none hposition, ih, hmem]
      | some i =>
        rw [filterMap_cons_some hposition, find?_cons_of_neg, ih]
        · simp [hmem]
        · simp [fingerprint_of_nodePosition hposition, hcurrent]

end

/-- The index and the scans agree, and a stored selection is found only as itself. -/
theorem indexed_group_resolution {Node : Type*} (nodeFingerprint : Node → Str) (nodes : List Node)
    (group : ProxyGroupMembers) :
    (NodeIndex.new nodeFingerprint nodes).resolveMembers group =
        resolveMembers nodeFingerprint group nodes ∧
      (NodeIndex.new nodeFingerprint nodes).selectedMember group =
        selectedMember nodeFingerprint group nodes ∧
      ∀ current i, group.current = some current →
        selectedMember nodeFingerprint group nodes = some i →
        current ∈ group.members ∧ nodes[i]?.map nodeFingerprint = some current := by
  have hlookup : (NodeIndex.new nodeFingerprint nodes).lookup = nodePosition nodeFingerprint nodes :=
    funext (lookup_new nodes)
  refine ⟨congrArg group.members.filterMap hlookup, ?_, fun current i hcurrent hselected => ?_⟩
  · unfold NodeIndex.selectedMember selectedMember
    cases group.current with
    | none =>
      rw [hlookup]
      exact head?_filterMap.symm
    | some current =>
      simp only [lookup_new]
      exact (find?_resolveMembers group.members nodes current).symm
  · rw [selectedMember, hcurrent] at hselected
    have hfound := (find?_resolveMembers group.members nodes current).symm.trans hselected
    obtain ⟨hmember, hposition⟩ := Option.ite_none_right_eq_some.mp hfound
    exact ⟨hmember, fingerprint_of_nodePosition hposition⟩

end Sockrocket
