import Sockrocket.Lib.OrdMap
import Sockrocket.Rust.Text

/-!
# The traffic ledger

The ledger counts the bytes of each node for the session, which starts with the process, and for
each month, which is kept in a file. This module has its contents and what a lock section does with
them: `record_parts_in_month` is three sections and an increment, a snapshot reads two maps.

Bytes go up or down and are counted alike, so the lemmas are about one `Direction`.
-/

namespace Sockrocket.Traffic

open Rust List Option

/-- `u64::saturating_add`. -/
def saturatingAdd (a b : Nat) : Nat :=
  min (a + b) (2 ^ 64 - 1)

/-- `AtomicU64::fetch_add` wraps around. -/
def wrappingAdd (a b : Nat) : Nat :=
  (a + b) % 2 ^ 64

variable {a b : Nat}

theorem saturatingAdd_of_lt (h : a + b < 2 ^ 64) : saturatingAdd a b = a + b :=
  min_eq_left (Nat.le_sub_one_of_lt h)

theorem wrappingAdd_of_lt (h : a + b < 2 ^ 64) : wrappingAdd a b = a + b :=
  Nat.mod_eq_of_lt h

inductive Direction where
  | up
  | down
deriving DecidableEq

structure TrafficCounters where
  up : Nat
  down : Nat
deriving DecidableEq

namespace TrafficCounters

def bytes (counters : TrafficCounters) : Direction → Nat
  | .up => counters.up
  | .down => counters.down

def total (counters : TrafficCounters) : Nat :=
  saturatingAdd counters.up counters.down

def add (counters : TrafficCounters) (up down : Nat) : TrafficCounters where
  up := saturatingAdd counters.up up
  down := saturatingAdd counters.down down

end TrafficCounters

/-- `MonthEntry` has the fields of the counters. -/
abbrev MonthEntry := TrafficCounters

structure NodeHistory where
  name : Str
  months : OrdMap Str MonthEntry

structure SubHistory where
  name : Str
  months : OrdMap Str MonthEntry

structure SessionEntry extends TrafficCounters where
  name : Str

/-- One node or the direct bucket, and the subscription that owned the node. -/
structure TrafficTarget where
  id : Str
  name : Str
  subscriptionId : Option Str
  subscriptionName : Option Str
deriving DecidableEq

structure NodeTrafficSnapshot where
  id : Str
  name : Str
  session : TrafficCounters
  history : TrafficCounters

def DIRECT_TRAFFIC_ID : Str :=
  "direct".toList

/-! ## Labels and months -/

def labelCarriesSecret (name : Str) : Bool :=
  let lower := toAsciiLowercase name
  contains lower "://".toList || contains lower "token=".toList ||
    contains lower "password=".toList || contains lower "passwd=".toList ||
    contains lower "secret=".toList || contains lower "auth=".toList

def publicTrafficLabel (name fallback : Str) : Str :=
  let trimmed := trim name
  if trimmed.isEmpty || labelCarriesSecret trimmed then fallback
  else trimmed.take 80

/-- `as i32`. -/
def wrapToI32 (n : Int) : Int :=
  (n + 2 ^ 31) % 2 ^ 32 - 2 ^ 31

/-- The civil date of a day. Intermediate values are in range for every day of a clock that counts
seconds in 64 bits. -/
def civilFromDays (days : Int) : Int × Nat × Nat :=
  let z := days + 719468
  let era := (if 0 ≤ z then z else z - 146096).tdiv 146097
  let doe := (z - era * 146097).toNat
  let yoe := (doe - doe / 1460 + doe / 36524 - doe / 146096) / 365
  let y := wrapToI32 (yoe + era * 400)
  let doy := doe - (365 * yoe + yoe / 4 - yoe / 100)
  let mp := (5 * doy + 2) / 153
  let d := doy - (153 * mp + 2) / 5 + 1
  let m := if mp < 10 then mp + 3 else mp - 9
  let y := if m ≤ 2 then y + 1 else y
  (y, m, d)

/-- `{:0width}`, with the sign within the width. -/
def zeroPadded (width : Nat) (n : Int) : Str :=
  let digits := decimal n.natAbs
  if n < 0 then '-' :: List.replicate (width - 1 - digits.length) '0' ++ digits
  else List.replicate (width - digits.length) '0' ++ digits

/-- The month a day belongs to. -/
def monthOf (day : Nat) : Str :=
  let (year, month, _) := civilFromDays day
  zeroPadded 4 year ++ '-' :: zeroPadded 2 month

/-- A clock that was set back counts into the month before. -/
example : monthOf 30 = "1970-01".toList ∧ monthOf 31 = "1970-02".toList := by
  decide

/-! ## Recording -/

/-- The id bytes are counted under. -/
def accountId (id : Str) : Str :=
  if id.isEmpty then DIRECT_TRAFFIC_ID else id

def nodeLabel (id name : Str) : Str :=
  publicTrafficLabel name
    (if accountId id = DIRECT_TRAFFIC_ID then "直连".toList else "节点".toList)

/-- The session's section of `record_parts_in_month`. -/
def recordSession (session : OrdMap Str SessionEntry) (target : TrafficTarget) (up down : Nat) :
    OrdMap Str SessionEntry :=
  let name := nodeLabel target.id target.name
  session.update (accountId target.id) { up := 0, down := 0, name := name } fun entry =>
    { entry.toTrafficCounters.add up down with name := name }

def addToMonth (months : OrdMap Str MonthEntry) (month : Str) (up down : Nat) :
    OrdMap Str MonthEntry :=
  months.update month { up := 0, down := 0 } fun bucket => bucket.add up down

def recordHistory (history : OrdMap Str NodeHistory) (target : TrafficTarget) (month : Str)
    (up down : Nat) : OrdMap Str NodeHistory :=
  let name := nodeLabel target.id target.name
  history.update (accountId target.id) { name := name, months := .empty } fun node =>
    { name := name, months := addToMonth node.months month up down }

def recordSubscription (subscriptions : OrdMap Str SubHistory) (target : TrafficTarget)
    (month : Str) (up down : Nat) : OrdMap Str SubHistory :=
  let subName := target.subscriptionName.map fun name => publicTrafficLabel name "订阅".toList
  match target.subscriptionId.filter fun id => !id.isEmpty with
  | none => subscriptions
  | some subId =>
    subscriptions.update subId
      { name := subName.getD "订阅".toList, months := .empty } fun sub =>
      { name := (subName.filter fun name => !name.isEmpty).getD sub.name
        months := addToMonth sub.months month up down }

/-! ## Reading -/

/-- The retained months of a node. -/
def monthsTotal (node : NodeHistory) : TrafficCounters :=
  node.months.entries.foldl (fun total month => total.add month.2.up month.2.down)
    { up := 0, down := 0 }

/-- The names of the nodes; a name of the session stands before one of the history. -/
def snapshotNames (session : OrdMap Str SessionEntry) (history : OrdMap Str NodeHistory) :
    OrdMap Str Str :=
  history.entries.foldl (fun names node => names.update node.1 node.2.name id)
    (session.entries.foldl (fun names entry => names.insert entry.1 entry.2.name) .empty)

def snapshotRow (session : OrdMap Str SessionEntry) (history : OrdMap Str NodeHistory)
    (node : Str × Str) : Option NodeTrafficSnapshot :=
  let sessionCounters :=
    ((session.get? node.1).map SessionEntry.toTrafficCounters).getD { up := 0, down := 0 }
  let historyCounters := ((history.get? node.1).map monthsTotal).getD { up := 0, down := 0 }
  if sessionCounters.total = 0 ∧ historyCounters.total = 0 then none
  else
    some
      { id := node.1
        name := node.2
        session := sessionCounters
        history := historyCounters }

/-- Most bytes of the session first, then most bytes of the history, then by name. -/
def snapshotOrder (a b : NodeTrafficSnapshot) : Bool :=
  if a.session.total ≠ b.session.total then decide (b.session.total ≤ a.session.total)
  else if a.history.total ≠ b.history.total then decide (b.history.total ≤ a.history.total)
  else decide (a.name ≤ b.name)

/-- What `snapshots` makes of its clones. -/
def snapshotRows (session : OrdMap Str SessionEntry) (history : OrdMap Str NodeHistory) :
    List NodeTrafficSnapshot :=
  ((snapshotNames session history).entries.filterMap (snapshotRow session history)).mergeSort
    snapshotOrder

/-- What `monthly_series` makes of the history. -/
def monthlyRows (history : OrdMap Str NodeHistory) (id : Str) : List (Str × TrafficCounters) :=
  ((history.get? id).map fun node => node.months.entries).getD []

/-! ## The bytes in the ledger -/

section Bytes

variable {direction : Direction} {target : TrafficTarget} {month : Str} {amount : TrafficCounters}

/-- The bytes of the history for the nodes and months that are selected. -/
def historyBytes (select : Str → Str → Bool) (direction : Direction)
    (history : OrdMap Str NodeHistory) : Nat :=
  history.sum fun id node =>
    node.months.sum fun month bucket => if select id month then bucket.bytes direction else 0

/-- The bytes of the session for the nodes that are selected. -/
def sessionBytes (select : Str → Bool) (direction : Direction)
    (session : OrdMap Str SessionEntry) : Nat :=
  session.sum fun id entry => if select id then entry.bytes direction else 0

/-- Selects one node. -/
def ofNode (id : Str) : Str → Str → Bool :=
  fun other _ => decide (other = id)

/-- Selects one node and one month. -/
def ofMonth (id month : Str) : Str → Str → Bool :=
  fun other otherMonth => decide (other = id) && decide (otherMonth = month)

variable {counters : TrafficCounters}

theorem TrafficCounters.bytes_add
    (h : counters.bytes direction + amount.bytes direction < 2 ^ 64) :
    (counters.add amount.up amount.down).bytes direction =
      counters.bytes direction + amount.bytes direction := by
  cases direction with
  | up | down => exact saturatingAdd_of_lt h

/-- The weight of a node that only counts one node. -/
theorem historyBytes_of_node {select : Str → Str → Bool} (id : Str)
    (h : ∀ other, other ≠ id → ∀ month, select other month = false)
    (history : OrdMap Str NodeHistory) :
    historyBytes select direction history =
      (history.get? id).elim 0 fun node =>
        node.months.sum fun month bucket =>
          if select id month then bucket.bytes direction else 0 := by
  refine OrdMap.sum_eq_weightAt history id fun other hother node => ?_
  refine OrdMap.sum_eq_zero _ fun month bucket => ?_
  rw [h other hother month]
  rfl

theorem historyBytes_ofMonth (history : OrdMap Str NodeHistory) (id month : Str) :
    historyBytes (ofMonth id month) direction history =
      (history.get? id).elim 0 fun node =>
        node.months.weightAt (fun _ bucket => bucket.bytes direction) month := by
  rw [historyBytes_of_node id (fun other hother month => by simp [ofMonth, hother])]
  cases history.get? id with
  | none => rfl
  | some node =>
    rw [elim_some, elim_some, OrdMap.sum_eq_weightAt node.months month]
    · simp [OrdMap.weightAt, ofMonth]
    · intro other hother bucket
      simp [ofMonth, hother]

theorem historyBytes_ofNode (history : OrdMap Str NodeHistory) (id : Str) :
    historyBytes (ofNode id) direction history =
      (history.get? id).elim 0 fun node =>
        node.months.sum fun _ bucket => bucket.bytes direction := by
  rw [historyBytes_of_node id (fun other hother month => by simp [ofNode, hother])]
  simp [ofNode]

theorem sessionBytes_one (session : OrdMap Str SessionEntry) (id : Str) :
    sessionBytes (fun other => decide (other = id)) direction session =
      (session.get? id).elim 0 fun entry => entry.bytes direction := by
  rw [sessionBytes, OrdMap.sum_eq_weightAt session id]
  · simp [OrdMap.weightAt]
  · intro other hother entry
    simp [hother]

theorem historyBytes_mono {select select' : Str → Str → Bool}
    (h : ∀ id month, select id month → select' id month)
    (history : OrdMap Str NodeHistory) (direction : Direction) :
    historyBytes select direction history ≤ historyBytes select' direction history := by
  refine OrdMap.sum_mono _ fun id node => OrdMap.sum_mono _ fun month bucket => ?_
  split
  · next hselect => rw [if_pos (h id month hselect)]
  · exact Nat.zero_le _

/-- Recording adds to what is selected, as long as the bucket does not saturate. -/
theorem historyBytes_record (select : Str → Str → Bool) (history : OrdMap Str NodeHistory)
    (hsmall : historyBytes (ofMonth (accountId target.id) month) direction history +
      amount.bytes direction < 2 ^ 64) :
    historyBytes select direction (recordHistory history target month amount.up amount.down) =
      historyBytes select direction history +
        if select (accountId target.id) month then amount.bytes direction else 0 := by
  refine OrdMap.sum_update_add history (OrdMap.sum_empty _) ?_
  dsimp only
  rw [historyBytes_ofMonth] at hsmall
  -- the bucket of the month, in the node's history or in a new one
  have hbucket : ∀ months : OrdMap Str MonthEntry,
      months.weightAt (fun _ bucket => bucket.bytes direction) month =
        ((months.get? month).getD { up := 0, down := 0 }).bytes direction := by
    intro months
    refine OrdMap.weightAt_eq months ?_
    cases direction <;> rfl
  refine OrdMap.sum_update_add _ ?_ ?_
  · cases direction <;> simp [TrafficCounters.bytes]
  · split
    · refine TrafficCounters.bytes_add ?_
      rw [← hbucket]
      cases hnode : history.get? (accountId target.id) with
      | none =>
        rw [hnode, elim_none] at hsmall
        exact hsmall
      | some node =>
        rw [hnode, elim_some] at hsmall
        exact hsmall
    · rfl

/-- As for the history. -/
theorem sessionBytes_record (select : Str → Bool) (session : OrdMap Str SessionEntry)
    (hsmall : sessionBytes (fun other => decide (other = accountId target.id)) direction session +
      amount.bytes direction < 2 ^ 64) :
    sessionBytes select direction (recordSession session target amount.up amount.down) =
      sessionBytes select direction session +
        if select (accountId target.id) then amount.bytes direction else 0 := by
  have hzero : ∀ name : Str, (SessionEntry.mk ⟨0, 0⟩ name).bytes direction = 0 := by
    intro name
    cases direction <;> rfl
  refine OrdMap.sum_update_add session ?_ ?_
  · rw [hzero, ite_self]
  · split
    · refine TrafficCounters.bytes_add ?_
      rw [sessionBytes_one] at hsmall
      cases hentry : session.get? (accountId target.id) with
      | none =>
        rw [hentry, elim_none] at hsmall
        rw [getD_none, hzero]
        exact hsmall
      | some entry =>
        rw [hentry, elim_some] at hsmall
        exact hsmall
    · rfl

/-- The total of a node, as long as it does not saturate. -/
theorem bytes_monthsTotal {node : NodeHistory}
    (hsmall : (node.months.sum fun _ bucket => bucket.bytes direction) < 2 ^ 64) :
    (monthsTotal node).bytes direction = node.months.sum fun _ bucket => bucket.bytes direction := by
  have hfold : ∀ (entries : List (Str × MonthEntry)) (start : TrafficCounters),
      start.bytes direction + (entries.map fun entry => entry.2.bytes direction).sum < 2 ^ 64 →
        (entries.foldl (fun total month => total.add month.2.up month.2.down) start).bytes direction =
          start.bytes direction + (entries.map fun entry => entry.2.bytes direction).sum := by
    intro entries
    induction entries with
    | nil => exact fun start _ => rfl
    | cons first rest ih =>
      intro start hsum
      rw [map_cons, sum_cons, ← add_assoc] at hsum
      have hfirst := TrafficCounters.bytes_add (Nat.lt_of_le_of_lt (Nat.le_add_right _ _) hsum)
      rw [foldl_cons, ih _ (by rwa [hfirst]), hfirst, map_cons, sum_cons, add_assoc]
  have hzero : (⟨0, 0⟩ : TrafficCounters).bytes direction = 0 := by cases direction <;> rfl
  have h := hfold node.months.entries ⟨0, 0⟩
  rw [hzero, zero_add] at h
  exact h hsmall

theorem TrafficCounters.bytes_of_total (h : counters.total = 0) :
    counters.bytes direction = 0 := by
  have hzero : counters.up = 0 ∧ counters.down = 0 := by
    unfold total saturatingAdd at h
    omega
  cases direction with
  | up => exact hzero.1
  | down => exact hzero.2

theorem snapshotNames_ne_none {session : OrdMap Str SessionEntry}
    {history : OrdMap Str NodeHistory} {node : Str}
    (h : session.get? node ≠ none ∨ history.get? node ≠ none) :
    (snapshotNames session history).get? node ≠ none := by
  have hkey : ∀ {ν : Type} {map : OrdMap Str ν}, map.get? node ≠ none →
      node ∈ map.entries.map fun entry => entry.1 := by
    intro ν map hne
    obtain ⟨value, hvalue⟩ := ne_none_iff_exists'.mp hne
    exact mem_map.mpr ⟨_, OrdMap.mem_of_get? hvalue, rfl⟩
  rw [← isSome_iff_ne_none, snapshotNames,
    OrdMap.isSome_get?_foldl (fun node : Str × NodeHistory => node.1) (fun node => node.2.name)
      fun _ => id]
  rcases h with h | h
  · refine .inl ((OrdMap.isSome_get?_foldl (fun entry : Str × SessionEntry => entry.1)
      (fun entry => entry.2.name) (fun entry _ => entry.2.name) ..).mpr ?_)
    exact .inr (hkey h)
  · exact .inr (hkey h)

/-- The bytes a row of the snapshot should have. -/
def NodeTrafficSnapshot.Shows (row : NodeTrafficSnapshot) (session : OrdMap Str SessionEntry)
    (history : OrdMap Str NodeHistory) : Prop :=
  ∀ direction,
    row.session.bytes direction =
        sessionBytes (fun other => decide (other = row.id)) direction session ∧
      row.history.bytes direction = historyBytes (ofNode row.id) direction history

/-- Rows show the bytes of their node, and every node with bytes has a row. -/
theorem snapshotRows_shows (session : OrdMap Str SessionEntry) (history : OrdMap Str NodeHistory)
    (hsmall : ∀ id direction, historyBytes (ofNode id) direction history < 2 ^ 64) :
    (∀ row ∈ snapshotRows session history, row.Shows session history) ∧
      ∀ id direction,
        sessionBytes (fun other => decide (other = id)) direction session ≠ 0 ∨
            historyBytes (ofNode id) direction history ≠ 0 →
          ∃ row ∈ snapshotRows session history, row.id = id := by
  have hzero : ∀ direction, (⟨0, 0⟩ : TrafficCounters).bytes direction = 0 := by
    intro direction
    cases direction <;> rfl
  have hsession : ∀ id direction,
      (((session.get? id).map SessionEntry.toTrafficCounters).getD ⟨0, 0⟩).bytes direction =
        sessionBytes (fun other => decide (other = id)) direction session := by
    intro id direction
    rw [sessionBytes_one]
    cases session.get? id with
    | none => exact hzero direction
    | some entry => rfl
  have hhistory : ∀ id direction,
      (((history.get? id).map monthsTotal).getD ⟨0, 0⟩).bytes direction =
        historyBytes (ofNode id) direction history := by
    intro id direction
    have hbound := hsmall id direction
    rw [historyBytes_ofNode] at hbound ⊢
    cases hnode : history.get? id with
    | none => exact hzero direction
    | some node =>
      rw [hnode, elim_some] at hbound
      exact bytes_monthsTotal hbound
  constructor
  · intro row hrow direction
    obtain ⟨node, -, hnode⟩ := mem_filterMap.mp (mem_mergeSort.mp hrow)
    unfold snapshotRow at hnode
    dsimp only at hnode
    split at hnode
    · cases hnode
    · obtain rfl := some.inj hnode
      exact ⟨hsession node.1 direction, hhistory node.1 direction⟩
  · intro id direction hbytes
    have hknown : session.get? id ≠ none ∨ history.get? id ≠ none := by
      refine hbytes.imp (fun h hnone => h ?_) fun h hnone => h ?_
      · rw [sessionBytes_one, hnone, elim_none]
      · rw [historyBytes_ofNode, hnone, elim_none]
    obtain ⟨name, hname⟩ := ne_none_iff_exists'.mp (snapshotNames_ne_none hknown)
    have hrow : ∃ row, snapshotRow session history (id, name) = some row ∧ row.id = id := by
      unfold snapshotRow
      dsimp only
      split
      · next hnone =>
        refine absurd hbytes ?_
        rw [← hsession, ← hhistory, TrafficCounters.bytes_of_total hnone.1,
          TrafficCounters.bytes_of_total hnone.2]
        simp
      · exact ⟨_, rfl, rfl⟩
    obtain ⟨row, hrow, hid⟩ := hrow
    refine ⟨row, mem_mergeSort.mpr (mem_filterMap.mpr ⟨_, ?_, hrow⟩), hid⟩
    exact OrdMap.mem_of_get? hname

end Bytes

end Sockrocket.Traffic
