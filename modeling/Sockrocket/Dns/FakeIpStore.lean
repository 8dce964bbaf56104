import Sockrocket.Dns.FakeIpRing

/-!
# The store round trip

The store has one line per binding, address and domain with a space between them. A domain that is
a word in the sense of `split_whitespace` comes back as it was; any other domain is cut, lost, or
read as lines of its own. `refines_reload` is the way back for pools of words, `storable_reload`
says that nothing but words is ever loaded, and `allocated_store_roundtrip` puts the two together.
-/

namespace FakeIp

open Rust List

/-- Every live domain is a word of the store's text format. -/
def Inner.Storable (inner : Inner) : Prop :=
  ∀ domain ∈ inner.byDomain.keys, IsWord domain

instance (inner : Inner) : Decidable inner.Storable :=
  inferInstanceAs (Decidable (∀ domain ∈ inner.byDomain.keys, IsWord domain))

/-- The bindings, the eviction order and the cursor are the same. -/
structure Inner.SameBindings (inner other : Inner) : Prop where
  byDomain : inner.byDomain = other.byDomain
  byIp : inner.byIp = other.byIp
  order : inner.order = other.order
  next : inner.next = other.next

/-- The pool a process has after a restart on the snapshot of this one. -/
def Inner.reload (inner : Inner) : Inner :=
  .loadOrNew (some inner.persistSnapshot)

variable {inner : Inner}

/-- Two pools of one ring have the same bindings. -/
theorem Refines.sameBindings {other : Inner} {ring : Ring} (h : Refines inner ring)
    (h' : Refines other ring) : inner.SameBindings other where
  byDomain := by
    refine Finmap.ext_lookup fun domain => Option.ext fun ip => ?_
    rw [h.byDomain, h'.byDomain]
  byIp := by
    refine Finmap.ext_lookup fun ip => Option.ext fun domain => ?_
    rw [h.byIp, h'.byIp]
  order := h.order.trans h'.order.symm
  next := h.next.trans h'.next.symm

/-! ## Single lines -/

variable {c : Char}

theorem isWhitespace_of_isIpChar (h : isIpChar c) : isWhitespace c = false := by
  have hall : ∀ n < 128, isIpChar (Char.ofNat n) →
      isWhitespace (Char.ofNat n) = false := by
    decide
  have hlt : c.toNat < 128 := by simpa [isAscii] using isAscii_of_isIpChar h
  simpa [h] using hall c.toNat hlt

variable {ip : Ipv4Addr}

theorem isIpChar_of_mem_displayV4 (hc : c ∈ ip.display) :
    isIpChar c :=
  @isIpChar_of_mem_display (.v4 ip) c hc

theorem isWord_display (ip : Ipv4Addr) : IsWord ip.display := by
  refine ⟨?_, fun c hc => isWhitespace_of_isIpChar (isIpChar_of_mem_displayV4 hc)⟩
  intro hnil
  have hparse := parseIpv4_display ip
  rw [hnil] at hparse
  cases hparse

variable {first second : Str}

/-- A line that starts and ends with a word is read as it stands. -/
theorem trim_words (between : Str) (hfirst : IsWord first)
    (hsecond : IsWord second) : trim (first ++ between ++ second) = first ++ between ++ second := by
  apply trim_eq_self
  · intro c hc
    rw [append_assoc, head?_append_of_ne_nil _ hfirst.1] at hc
    exact hfirst.2 c (mem_of_mem_head? hc)
  · intro c hc
    rw [getLast?_append_of_ne_nil _ hsecond.1] at hc
    exact hsecond.2 c (mem_of_mem_getLast? hc)

theorem loadLine_header (inner : Inner) :
    inner.loadLine (trim "# sockrocket fake-ip store v1".toList) = some inner := by
  have htrim : trim "# sockrocket fake-ip store v1".toList =
      "# sockrocket fake-ip store v1".toList := by
    decide
  rw [htrim]
  rfl

theorem isWord_decimal (n : Nat) : IsWord (decimal n) := by
  refine ⟨decimal_ne_nil n, fun c hc => isWhitespace_of_isIpChar ?_⟩
  have hdigit : isDigit 16 c := isDigit_mono (by decide) (isDigit_of_mem_decimal hc)
  simp [isIpChar, hdigit]

theorem loadLine_next (inner : Inner) {n : Nat} (h : n ≤ u32Max) :
    inner.loadLine (trim ("next=".toList ++ decimal n)) =
      some { inner with next := max n firstHostOffset } := by
  have hcursor : IsWord "next=".toList := by decide
  have htrim := trim_words [] hcursor (isWord_decimal n)
  rw [append_nil] at htrim
  rw [htrim]
  have hstripped : stripPrefix "next=".toList ("next=".toList ++ decimal n) = some (decimal n) := by
    simp [stripPrefix, isPrefixOf?]
  have hplain : ¬ ("next=".toList ++ decimal n = [] ∨
      startsWith ("next=".toList ++ decimal n) ['#']) := by
    simp [startsWith]
  rw [Inner.loadLine, if_neg hplain, hstripped]
  simp [parseUnsigned_decimal h]

variable {domain : Str}

/-- The line of a binding whose domain is a word is taken over as a row. -/
theorem loadLine_row (inner : Inner) (hfake : isFakeIp ip)
    (hword : IsWord domain) (hlower : toAsciiLowercase domain = domain) :
    inner.loadLine (trim (Inner.rowText (ip, domain))) = inner.loadRow ip domain := by
  have hdisplay := isWord_display ip
  have hline : Inner.rowText (ip, domain) = ip.display ++ [' '] ++ domain := by
    simp [Inner.rowText]
  rw [hline, trim_words [' '] hdisplay hword]
  -- the line starts with a digit, so it is neither a comment nor the cursor
  obtain ⟨c, rest, hcons⟩ := exists_cons_of_ne_nil hdisplay.1
  have hc : isIpChar c := isIpChar_of_mem_displayV4 (hcons ▸ mem_cons_self)
  have hplain : ¬ (ip.display ++ [' '] ++ domain = [] ∨
      startsWith (ip.display ++ [' '] ++ domain) ['#']) := by
    rw [hcons]
    rintro (hnil | hstart)
    · cases hnil
    · have heq : ('#' == c) := by simpa [startsWith] using hstart
      rw [← eq_of_beq heq] at hc
      exact absurd hc (by decide)
  have hstripped : stripPrefix "next=".toList (ip.display ++ [' '] ++ domain) = none := by
    rw [hcons]
    have hne : ('n' == c) = false := by
      refine beq_false_of_ne fun heq => ?_
      subst heq
      exact absurd hc (by decide)
    simp [stripPrefix, isPrefixOf?, hne]
  rw [Inner.loadLine, if_neg hplain, hstripped]
  rw [append_assoc, singleton_append, splitWhitespace_pair hdisplay hword]
  simp [Inner.loadWords, parseIpv4_display, hfake, hlower]

/-! ## All rows -/

/-- What loading the rows adds to a pool. -/
structure Loaded (inner : Inner) (rows : List (Ipv4Addr × Str)) (result : Inner) : Prop where
  next : result.next = inner.next
  order : result.order = inner.order ++ rows.map Prod.snd
  byDomain : ∀ domain ip, result.byDomain.lookup domain = some ip ↔
    (ip, domain) ∈ rows ∨ inner.byDomain.lookup domain = some ip
  byIp : ∀ domain ip, result.byIp.lookup ip = some domain ↔
    (ip, domain) ∈ rows ∨ inner.byIp.lookup ip = some domain

theorem len_bind (h : domain ∉ inner.byDomain) :
    (inner.bind domain ip).len = inner.len + 1 := by
  have hkeys : (inner.bind domain ip).byDomain.keys = insert domain inner.byDomain.keys := by
    ext other
    rw [Finset.mem_insert, Finmap.mem_keys, Finmap.mem_keys]
    exact Finmap.mem_insert
  rw [Inner.len, hkeys, Finset.card_insert_of_notMem (by rwa [Finmap.mem_keys]), Inner.len]

/-- Rows with distinct new domains and addresses are all taken over while there is room. -/
theorem loadLines_rows {rows : List (Ipv4Addr × Str)}
    (hrows : ∀ row ∈ rows, isFakeIp row.1 ∧ IsWord row.2 ∧ toAsciiLowercase row.2 = row.2)
    (hdomains : (rows.map Prod.snd).Nodup) (hips : (rows.map Prod.fst).Nodup)
    (hfresh : ∀ row ∈ rows, row.2 ∉ inner.byDomain ∧ row.1 ∉ inner.byIp)
    (hroom : inner.len + rows.length ≤ maxEntries) :
    Loaded inner rows (inner.loadLines (rows.map Inner.rowText)) := by
  -- induction on the rows still to read, for every pool they are read into
  induction rows generalizing inner with
  | nil => exact ⟨rfl, by simp [Inner.loadLines], by simp [Inner.loadLines],
      by simp [Inner.loadLines]⟩
  | cons row rest ih =>
    obtain ⟨ip, domain⟩ := row
    obtain ⟨hfake, hword, hlower⟩ := hrows (ip, domain) mem_cons_self
    obtain ⟨hdomain, hip⟩ := hfresh (ip, domain) mem_cons_self
    rw [map_cons, nodup_cons] at hdomains hips
    rw [length_cons] at hroom
    have hload : inner.loadLine (trim (Inner.rowText (ip, domain))) =
        some (inner.bind domain ip) := by
      rw [loadLine_row inner hfake hword hlower, Inner.loadRow, if_neg (by omega), if_neg]
      exact not_or.mpr ⟨hdomain, hip⟩
    have hrest : Loaded (inner.bind domain ip) rest
        ((inner.bind domain ip).loadLines (rest.map Inner.rowText)) := by
      refine ih (fun row hrow => hrows row (mem_cons_of_mem _ hrow)) hdomains.2 hips.2
        (fun row hrow => ?_) (by rw [len_bind hdomain]; omega)
      obtain ⟨hdomain', hip'⟩ := hfresh row (mem_cons_of_mem _ hrow)
      constructor
      · intro hmem
        rcases Finmap.mem_insert.mp hmem with heq | hmem
        · have hmap := mem_map_of_mem (f := Prod.snd) hrow
          exact hdomains.1 (heq ▸ hmap)
        · exact hdomain' hmem
      · intro hmem
        rcases Finmap.mem_insert.mp hmem with heq | hmem
        · have hmap := mem_map_of_mem (f := Prod.fst) hrow
          exact hips.1 (heq ▸ hmap)
        · exact hip' hmem
    rw [map_cons, Inner.loadLines, hload]
    refine ⟨hrest.next, ?_, fun other address => ?_, fun other address => ?_⟩
    · rw [hrest.order, map_cons]
      show inner.order ++ [domain] ++ _ = _
      rw [append_assoc, singleton_append]
    · rw [hrest.byDomain]
      show _ ∨ (inner.byDomain.insert domain ip).lookup other = some address ↔ _
      rw [lookup_insert_eq_some, mem_cons, Prod.mk.injEq]
      have hold : (other ≠ domain ∧ inner.byDomain.lookup other = some address) ↔
          inner.byDomain.lookup other = some address := by
        refine and_iff_right_of_imp fun hlookup heq => hdomain ?_
        exact heq ▸ Finmap.mem_of_lookup_eq_some hlookup
      rw [hold, or_left_comm, or_assoc, and_comm]
    · rw [hrest.byIp]
      show _ ∨ (inner.byIp.insert ip domain).lookup address = some other ↔ _
      rw [lookup_insert_eq_some, mem_cons, Prod.mk.injEq]
      have hold : (address ≠ ip ∧ inner.byIp.lookup address = some other) ↔
          inner.byIp.lookup address = some other := by
        refine and_iff_right_of_imp fun hlookup heq => hip ?_
        exact heq ▸ Finmap.mem_of_lookup_eq_some hlookup
      rw [hold, or_left_comm, or_assoc]

/-- The rows of a snapshot are the live domains with their addresses, oldest first. -/
theorem rows_eq {ring : Ring} (h : Refines inner ring) :
    inner.rows = ring.live.map fun domain => (ringAddress ring domain, domain) := by
  rw [Inner.rows, h.order, ← filterMap_eq_map]
  refine filterMap_congr fun domain hdomain => ?_
  rw [(h.byDomain domain _).mpr ⟨hdomain, rfl⟩]
  rfl

/-- A text that holds no line feed and ends in no carriage return is one line. -/
def IsLine (s : Str) : Prop :=
  '\n' ∉ s ∧ s.getLast? ≠ some '\r'

theorem lines_of_isLine {rows : List Str} (h : ∀ row ∈ rows, IsLine row) :
    lines (rows.flatMap (· ++ ['\n'])) = rows := by
  rw [lines_flatMap fun row hrow => (h row hrow).1]
  refine (map_congr_left fun row hrow => ?_).trans (map_id rows)
  exact if_neg (h row hrow).2

theorem isLine_append (between : Str) (hfirst : IsWord first)
    (hsecond : IsWord second) (hbetween : '\n' ∉ between) :
    IsLine (first ++ between ++ second) := by
  have hfeed : isWhitespace '\n' := by decide
  have hreturn : isWhitespace '\r' := by decide
  constructor
  · simp only [mem_append, not_or]
    refine ⟨⟨fun hmem => ?_, hbetween⟩, fun hmem => ?_⟩
    · rw [hfirst.2 _ hmem] at hfeed
      cases hfeed
    · rw [hsecond.2 _ hmem] at hfeed
      cases hfeed
  · intro hlast
    rw [getLast?_append_of_ne_nil _ hsecond.1] at hlast
    rw [hsecond.2 _ (mem_of_mem_getLast? hlast)] at hreturn
    cases hreturn

section Snapshot

variable {inner : Inner} {ring : Ring}

section

variable (h : Refines inner ring)

include h

theorem mem_rows (domain : Str) (ip : Ipv4Addr) :
    (ip, domain) ∈ inner.rows ↔ Bound ring domain ip := by
  rw [rows_eq h, mem_map]
  constructor
  · rintro ⟨domain', hdomain, heq⟩
    obtain ⟨rfl, rfl⟩ := Prod.mk.inj heq
    exact ⟨hdomain, rfl⟩
  · rintro ⟨hdomain, rfl⟩
    exact ⟨domain, hdomain, rfl⟩

theorem map_snd_rows : inner.rows.map Prod.snd = ring.live := by
  rw [rows_eq h, map_map]
  exact map_id ring.live

theorem nodup_map_fst_rows : (inner.rows.map Prod.fst).Nodup := by
  rw [rows_eq h, map_map]
  refine ring.nodup.map_on fun domain hdomain domain' hdomain' heq => ?_
  exact Bound.unique ⟨hdomain, rfl⟩ ⟨hdomain', heq⟩

/-- The snapshot of a pool of words has the lines it was written from. -/
theorem lines_persistSnapshot (hwords : ∀ domain ∈ ring.live, IsWord domain) :
    lines inner.persistSnapshot =
      "# sockrocket fake-ip store v1".toList :: ("next=".toList ++ decimal inner.next) ::
        inner.rows.map Inner.rowText := by
  refine lines_of_isLine fun row hrow => ?_
  rcases mem_cons.mp hrow with rfl | hrow
  · constructor <;> decide
  rcases mem_cons.mp hrow with rfl | hrow
  · have hcursor : IsWord "next=".toList := by decide
    have hline := isLine_append [] hcursor (isWord_decimal inner.next) not_mem_nil
    rwa [append_nil] at hline
  obtain ⟨⟨ip, domain⟩, hmem, rfl⟩ := mem_map.mp hrow
  have hdomain := ((mem_rows h domain ip).mp hmem).1
  have hline := isLine_append [' '] (isWord_display ip) (hwords domain hdomain) (by decide)
  simpa [Inner.rowText] using hline

theorem reload_eq (hwords : ∀ domain ∈ ring.live, IsWord domain) :
    inner.reload =
      Inner.loadLines { Inner.new with next := inner.next } (inner.rows.map Inner.rowText) := by
  have hnext : inner.next ≤ u32Max := by
    have hle := ring.cursor_le
    rw [h.next]
    unfold firstHostOffset maxEntries u32Max at *
    omega
  have hmax : max inner.next firstHostOffset = inner.next := by
    rw [h.next]
    omega
  show Inner.loadLines Inner.new (lines inner.persistSnapshot) = _
  rw [lines_persistSnapshot h hwords, Inner.loadLines, loadLine_header]
  simp only [Inner.loadLines, loadLine_next _ hnext, hmax]

/-- A pool whose domains are words comes back from its own snapshot. -/
theorem refines_reload (hstorable : inner.Storable) :
    Refines inner.reload ring := by
  have hwords : ∀ domain ∈ ring.live, IsWord domain := by
    intro domain hdomain
    refine hstorable domain ?_
    rw [Finmap.mem_keys, h.mem_iff]
    exact hdomain
  have hloaded : Loaded { Inner.new with next := inner.next } inner.rows inner.reload := by
    rw [reload_eq h hwords]
    refine loadLines_rows ?_ (map_snd_rows h ▸ ring.nodup) (nodup_map_fst_rows h) ?_ ?_
    · intro row hrow
      obtain ⟨hdomain, hip⟩ := (mem_rows h row.2 row.1).mp hrow
      exact ⟨hip ▸ isFakeIp_ringAddress hdomain, hwords _ hdomain, h.lower _ hdomain⟩
    · intro row hrow
      exact ⟨Finmap.notMem_empty, Finmap.notMem_empty⟩
    · have hlength : inner.rows.length = ring.live.length := by
        rw [← map_snd_rows h, length_map]
      have hempty : ({ Inner.new with next := inner.next } : Inner).len = 0 := rfl
      rw [hempty, hlength, zero_add]
      exact ring.length_le
  refine ⟨hloaded.next.trans h.next, ?_, fun domain ip => ?_, fun domain ip => ?_, h.lower⟩
  · rw [hloaded.order, map_snd_rows h]
    rfl
  · rw [hloaded.byDomain, mem_rows h]
    exact or_iff_left (by simp [Inner.new])
  · rw [hloaded.byIp, mem_rows h]
    exact or_iff_left (by simp [Inner.new])

end

end Snapshot

/-! ## Only words are loaded -/

variable {result : Inner}

theorem mem_loadWords {words : List Str} (hwords : ∀ word ∈ words, IsWord word)
    (h : inner.loadWords words = some result) (hmem : domain ∈ result.byDomain) :
    IsWord domain ∨ domain ∈ inner.byDomain := by
  -- every way out of the row but one leaves the pool as it is
  have hsame : some inner = some result → IsWord domain ∨ domain ∈ inner.byDomain := by
    intro heq
    obtain rfl := Option.some.inj heq
    exact .inr hmem
  unfold Inner.loadWords at h
  split at h
  · rename_i ipText word rest
    split at h
    · rename_i ip _
      split at h
      · unfold Inner.loadRow at h
        split at h
        · cases h
        split at h
        · exact hsame h
        obtain rfl := Option.some.inj h
        rcases Finmap.mem_insert.mp hmem with rfl | hmem
        · exact .inl (hwords word (by simp)).toAsciiLowercase
        · exact .inr hmem
      · exact hsame h
    · exact hsame h
  · exact hsame h

theorem mem_loadLine {line : Str} (h : inner.loadLine line = some result)
    (hmem : domain ∈ result.byDomain) :
    IsWord domain ∨ domain ∈ inner.byDomain := by
  have hsame : result.byDomain = inner.byDomain → IsWord domain ∨ domain ∈ inner.byDomain :=
    fun heq => .inr (heq ▸ hmem)
  unfold Inner.loadLine at h
  split at h
  · obtain rfl := Option.some.inj h
    exact hsame rfl
  split at h
  · split at h
    · obtain rfl := Option.some.inj h
      exact hsame rfl
    · obtain rfl := Option.some.inj h
      exact hsame rfl
  · exact mem_loadWords (fun word hword => isWord_of_mem_splitWhitespace hword) h hmem

theorem mem_loadLines {text : List Str} (hmem : domain ∈ (inner.loadLines text).byDomain) :
    IsWord domain ∨ domain ∈ inner.byDomain := by
  induction text generalizing inner with
  | nil => exact .inr hmem
  | cons raw rest ih =>
    rw [Inner.loadLines] at hmem
    split at hmem
    · rename_i loaded hload
      rcases ih hmem with hword | hmem
      · exact .inl hword
      · exact mem_loadLine hload hmem
    · exact .inr hmem

/-- Whatever the store holds, every domain loaded from it is a word. -/
theorem storable_reload (inner : Inner) : inner.reload.Storable := by
  intro domain hdomain
  rw [Finmap.mem_keys] at hdomain
  rcases mem_loadLines hdomain with hword | hmem
  · exact hword
  · exact absurd hmem Finmap.notMem_empty

/-! ## Pools reached by allocations -/

/-- The pool after allocations from an empty one. -/
def Inner.allocateAll (names : List Str) : Inner :=
  names.foldl (fun inner name => (inner.allocate name).2) Inner.new

theorem refines_allocateAll (names : List Str) :
    ∃ ring, Refines (Inner.allocateAll names) ring := by
  have hrun : ∀ (inner : Inner), (∃ ring, Refines inner ring) →
      ∃ ring, Refines (names.foldl (fun inner name => (inner.allocate name).2) inner) ring := by
    induction names with
    | nil => exact fun _ h => h
    | cons name rest ih =>
      intro inner h
      obtain ⟨ring, hring⟩ := h
      exact ih _ ⟨_, refines_allocate hring name⟩
  exact hrun _ ⟨_, refines_new⟩

/-- A restart on the snapshot of an allocated pool restores the bindings, the eviction order and
the cursor exactly when every live domain is a word. -/
theorem allocated_store_roundtrip (names : List Str) :
    (Inner.allocateAll names).reload.SameBindings (Inner.allocateAll names) ↔
      (Inner.allocateAll names).Storable := by
  obtain ⟨ring, hring⟩ := refines_allocateAll names
  constructor
  · intro hsame domain hdomain
    rw [← hsame.byDomain] at hdomain
    exact storable_reload _ domain hdomain
  · intro hstorable
    exact (refines_reload hring hstorable).sameBindings hring

/-- The name `resolve_qtype_snapshot` works on, if the labels of the queried name have legal
lengths. -/
def canonicalName (domain : Str) : Option Str :=
  let canonical := toAsciiLowercase (trimEndMatches '.' domain)
  if 253 < len canonical ∨
      (canonical ≠ [] ∧
        (canonical.splitOn '.').any (fun label => label.isEmpty || 63 < len label) = true) then
    none
  else some canonical

/-- A label with a line feed in it is admitted, and after a restart it has moved the cursor. -/
theorem store_roundtrip_line_feed :
    canonicalName "x\nnext=70000".toList = some "x\nnext=70000".toList ∧
      ¬ (Inner.allocateAll ["x\nnext=70000".toList]).reload.SameBindings
        (Inner.allocateAll ["x\nnext=70000".toList]) := by
  refine ⟨by decide, fun hsame => ?_⟩
  have hbefore : (Inner.allocateAll ["x\nnext=70000".toList]).next = 3 := by decide
  have hafter : (Inner.allocateAll ["x\nnext=70000".toList]).reload.next = 70000 := by
    decide
  have hnext := hsame.next
  rw [hbefore, hafter] at hnext
  omega

end FakeIp
