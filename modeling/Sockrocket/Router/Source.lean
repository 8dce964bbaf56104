import Sockrocket.Router.Engine

/-!
# Client scopes

What `normalize_rule_source` accepts and returns. A normalized source is empty or the text of a network
whose host bits are clear (`normalizeRuleSource_cases`), it compiles to that network
(`compileSource_of_normalized`), and two networks of one prefix length that contain a common client are
the same (`network_unique`).
-/

namespace Sockrocket

open Rust

/-- The number of bits of an address. -/
def addressBits : IpAddr → Nat
  | .v4 _ => 32
  | .v6 _ => 128

theorem slash_not_mem_display (ip : IpAddr) : '/' ∉ ip.display := by
  intro h
  exact absurd (isIpChar_of_mem_display '/' h) (by decide)

theorem splitn_two {c : Char} {before : Str} (h : c ∉ before) (after : Str) :
    splitn 2 c (before ++ c :: after) = [before, after] := by
  simp [splitn, splitOnce_append h]

variable {ip : IpAddr} {bits : Nat}

theorem parseUnsigned_bits (hbits : bits ≤ addressBits ip) :
    parseUnsigned 255 (decimal bits) = some bits := by
  refine parseUnsigned_decimal (le_trans hbits ?_)
  cases ip <;> simp [addressBits]

variable {text : Str}

/-- A network whose two parts are read. -/
theorem parseCidr_append {addr : Str} (hslash : '/' ∉ addr) (hip : parseIp addr = some ip)
    (htext : parseUnsigned 255 text = some bits) (hbits : bits ≤ addressBits ip) :
    parseCidr (addr ++ '/' :: text) = some (ip, bits) := by
  unfold parseCidr
  rw [splitn_two hslash text]
  simp only [hip, htext, Option.bind_eq_bind, Option.bind_some]
  cases ip with
  | v4 ip | v6 ip => exact if_neg (not_lt.mpr hbits)

/-- A network is read back from its text. -/
theorem parseCidr_displayCidr (hbits : bits ≤ addressBits ip) :
    parseCidr (displayCidr ip bits) = some (ip, bits) := by
  rw [displayCidr, List.append_assoc]
  exact parseCidr_append (slash_not_mem_display ip) (parseIp_display ip)
    (parseUnsigned_bits hbits) hbits

theorem parseCidr_bits_le {cidr : Str} (h : parseCidr cidr = some (ip, bits)) :
    bits ≤ addressBits ip := by
  unfold parseCidr at h
  split at h
  · rename_i address text hsplit
    simp only [Option.bind_eq_bind, Option.bind_eq_some_iff] at h
    obtain ⟨addr, -, prefixLen, -, hmatch⟩ := h
    cases addr with
    | v4 addr | v6 addr =>
      simp only [Option.ite_none_left_eq_some, Option.some.injEq, Prod.mk.injEq] at hmatch
      obtain ⟨hle, rfl, rfl⟩ := hmatch
      exact not_lt.mp hle
  · cases h

theorem networkOf_idem (ip : IpAddr) (bits : Nat) :
    networkOf (networkOf ip bits) bits = networkOf ip bits := by
  cases ip with
  | v4 ip | v6 ip => simp [networkOf, BitVec.and_assoc]

theorem addressBits_networkOf (ip : IpAddr) (bits : Nat) :
    addressBits (networkOf ip bits) = addressBits ip := by
  cases ip <;> rfl

/-- The address is an IPv4 address in the form of IPv6. -/
def isMapped : IpAddr → Bool
  | .v4 _ => false
  | .v6 ip => ip.toIpv4Mapped.isSome

theorem isMapped_v6 {ip : Ipv6Addr} : isMapped (.v6 ip) ↔ ip.toNat / 2 ^ 32 = 0xffff := by
  change ip.toIpv4Mapped.isSome ↔ _
  unfold Ipv6Addr.toIpv4Mapped
  rw [Option.isSome_ite]

theorem getLsbD_prefixMask {w i : Nat} (hbits : bits ≤ w) :
    (prefixMask w bits).getLsbD i = decide (w - bits ≤ i ∧ i < w) := by
  unfold prefixMask
  split
  · simp
    omega
  · rw [BitVec.getLsbD_shiftLeft, BitVec.getLsbD_allOnes, Bool.eq_iff_iff]
    simp only [Bool.and_eq_true, Bool.not_eq_true', decide_eq_true_eq, decide_eq_false_iff_not]
    omega

/-- Clearing host bits does not make an address an IPv4 address. -/
theorem isMapped_networkOf (hbits : bits ≤ addressBits ip) (h : isMapped (networkOf ip bits))
    : isMapped ip := by
  cases ip with
  | v4 ip => exact h
  | v6 ip =>
    have hbits : bits ≤ 128 := hbits
    rw [isMapped_v6]
    change isMapped (.v6 (ip &&& prefixMask 128 bits)) = true at h
    rw [isMapped_v6] at h
    have hbit : ∀ i, (ip.getLsbD (i + 32) && decide (128 - bits ≤ i + 32 ∧ i + 32 < 128)) =
        Nat.testBit 0xffff i := by
      intro i
      rw [← getLsbD_prefixMask hbits, ← BitVec.getLsbD_and, ← h, Nat.testBit_div_two_pow,
        BitVec.testBit_toNat]
    -- the lowest bit of the marker is set, so the prefix covers all of it
    have hshift : 128 - bits ≤ 32 := by
      have hlow := hbit 0
      simp at hlow
      omega
    refine Nat.eq_of_testBit_eq fun i => ?_
    rw [← hbit i, Nat.testBit_div_two_pow, BitVec.testBit_toNat]
    by_cases hi : i + 32 < 128
    · have hcover : 128 - bits ≤ i + 32 ∧ i + 32 < 128 := ⟨by omega, hi⟩
      simp [hcover]
    · rw [BitVec.getLsbD_of_ge _ _ (not_lt.mp hi), Bool.false_and]

/-- A network of mapped addresses is one of IPv4. -/
def unmapNetwork : IpAddr × Nat → IpAddr × Nat
  | (.v4 ip, bits) => (.v4 ip, bits)
  | (.v6 ip, bits) =>
    match ip.toIpv4Mapped with
    | some v4 => (.v4 v4, bits - 96)
    | none => (.v6 ip, bits)

/-- The network that a source writes. A bare address is a network of its own. -/
def writtenNetwork (source : Str) : Option (IpAddr × Nat) :=
  (if contains (trim source) "/".toList then parseCidr (trim source)
    else (parseIp (trim source)).map fun ip => (ip, addressBits ip)).map unmapNetwork

variable {source : Str}

/-- What normalization returns: nothing, or the text of the network written. -/
theorem normalizeRuleSource_written (h : normalizeRuleSource source = .ok text) :
    (trim source = [] ∧ text = []) ∨ ∃ ip bits, writtenNetwork source = some (ip, bits) ∧
      bits ≤ addressBits ip ∧ isMapped ip = false ∧ text = displayCidr (networkOf ip bits) bits := by
  unfold normalizeRuleSource at h
  simp only at h
  split at h
  · rename_i hempty
    exact .inl ⟨hempty, by simpa using h.symm⟩
  right
  split at h
  · cases h
  rename_i ip bits hparsed
  have hwritten : writtenNetwork source = some (unmapNetwork (ip, bits)) ∧
      bits ≤ addressBits ip := by
    unfold writtenNetwork
    split at hparsed
    · rename_i hslash
      rw [if_pos hslash]
      split at hparsed
      · rename_i hcidr
        obtain rfl : _ = (ip, bits) := by simpa using hparsed
        rw [hcidr]
        exact ⟨rfl, parseCidr_bits_le hcidr⟩
      · cases hparsed
    · rename_i hslash
      rw [if_neg hslash]
      split at hparsed
      · rename_i addr hip
        have hwidth : (if addr.isIpv4 then 32 else 128) = addressBits addr := by
          cases addr <;> rfl
        rw [hwidth] at hparsed
        obtain ⟨rfl, rfl⟩ : addr = ip ∧ addressBits addr = bits := by simpa using hparsed
        rw [hip]
        exact ⟨rfl, le_rfl⟩
      · cases hparsed
  obtain ⟨hwritten, hbits⟩ := hwritten
  cases ip with
  | v4 ip => exact ⟨_, _, hwritten, hbits, rfl, by simpa using h.symm⟩
  | v6 ip =>
    have hle : bits ≤ 128 := hbits
    cases hmapped : ip.toIpv4Mapped with
    | none =>
      simp only [unmapNetwork, hmapped] at hwritten h
      exact ⟨_, _, hwritten, hbits, by simp [isMapped, hmapped], by simpa using h.symm⟩
    | some v4 =>
      simp only [unmapNetwork, hmapped] at hwritten h
      by_cases hshort : bits < 96
      · rw [if_pos hshort] at h
        cases h
      rw [if_neg hshort] at h
      refine ⟨_, _, hwritten, ?_, rfl, by simpa using h.symm⟩
      show bits - 96 ≤ 32
      omega

/-- What normalization returns has no host bits and is not mapped. -/
theorem normalizeRuleSource_cases
    (h : normalizeRuleSource source = .ok text) :
    (trim source = [] ∧ text = []) ∨ ∃ ip bits, bits ≤ addressBits ip ∧
      networkOf ip bits = ip ∧ isMapped ip = false ∧ text = displayCidr ip bits := by
  refine (normalizeRuleSource_written h).imp_right ?_
  rintro ⟨ip, bits, -, hbits, hmapped, htext⟩
  refine ⟨networkOf ip bits, bits, ?_, networkOf_idem _ _, ?_, htext⟩
  · rw [addressBits_networkOf]
    exact hbits
  · rw [← Bool.not_eq_true]
    intro hnetwork
    rw [isMapped_networkOf hbits hnetwork] at hmapped
    cases hmapped

/-- The address lies in the network: it is of its family and has its leading bits. -/
def InNetwork (client : IpAddr) (network : IpAddr × Nat) : Prop :=
  match client, network.1 with
  | .v4 client, .v4 ip => client.toNat / 2 ^ (32 - network.2) = ip.toNat / 2 ^ (32 - network.2)
  | .v6 client, .v6 ip => client.toNat / 2 ^ (128 - network.2) = ip.toNat / 2 ^ (128 - network.2)
  | _, _ => False

theorem and_prefixMask_eq_iff {w bits : Nat} (hbits : bits ≤ w) (a b : BitVec w) :
    a &&& prefixMask w bits = b &&& prefixMask w bits ↔
      a.toNat / 2 ^ (w - bits) = b.toNat / 2 ^ (w - bits) := by
  constructor
  · intro h
    refine Nat.eq_of_testBit_eq fun i => ?_
    have hbit := congrArg (fun v => v.getLsbD (i + (w - bits))) h
    simp only [BitVec.getLsbD_and, getLsbD_prefixMask hbits] at hbit
    rw [Nat.testBit_div_two_pow, Nat.testBit_div_two_pow, BitVec.testBit_toNat, BitVec.testBit_toNat]
    by_cases hi : i + (w - bits) < w
    · simpa [hi] using hbit
    · rw [BitVec.getLsbD_of_ge _ _ (not_lt.mp hi), BitVec.getLsbD_of_ge _ _ (not_lt.mp hi)]
  · intro h
    refine BitVec.eq_of_getLsbD_eq fun i hi => ?_
    rw [BitVec.getLsbD_and, BitVec.getLsbD_and, getLsbD_prefixMask hbits]
    by_cases hlow : w - bits ≤ i
    · have hbit := congrArg (fun n => n.testBit (i - (w - bits))) h
      simp only [Nat.testBit_div_two_pow, BitVec.testBit_toNat, Nat.sub_add_cancel hlow] at hbit
      rw [hbit]
    · simp [hlow]

/-- The router's test is membership, and the host bits of the network do not matter. -/
theorem cidrMatch_networkOf (client : IpAddr) (hbits : bits ≤ addressBits ip) :
    cidrMatch client (networkOf ip bits) bits ↔ InNetwork client (ip, bits) := by
  have hmask (w : Nat) (a b : BitVec w) (hle : bits ≤ w) :
      (if bits = 0 then true else
        let mask := BitVec.allOnes w <<< (w - bits)
        a &&& mask == b &&& prefixMask w bits &&& mask) ↔
      a.toNat / 2 ^ (w - bits) = b.toNat / 2 ^ (w - bits) := by
    rw [← and_prefixMask_eq_iff hle, prefixMask]
    by_cases hzero : bits = 0
    · simp [hzero]
    · simp [hzero, BitVec.and_assoc]
  cases client with
  | v4 client =>
    cases ip with
    | v4 ip => exact hmask 32 client ip hbits
    | v6 ip => exact iff_of_false Bool.false_ne_true id
  | v6 client =>
    cases ip with
    | v4 ip => exact iff_of_false Bool.false_ne_true id
    | v6 ip => exact hmask 128 client ip hbits

/-- The source is in the form that normalization produces. -/
def IsNormalized (source : Str) : Prop :=
  normalizeRuleSource source = .ok source

instance (source : Str) : Decidable (IsNormalized source) :=
  inferInstanceAs (Decidable (_ = _))

/-- A normalized source that is not empty compiles to the network it names. -/
theorem compileSource_of_normalized (h : IsNormalized source) (hne : source ≠ []) :
    ∃ ip bits, compileSource source = some (some (ip, bits)) ∧ source = displayCidr ip bits ∧
      bits ≤ addressBits ip ∧ networkOf ip bits = ip := by
  rcases normalizeRuleSource_cases h with ⟨-, hempty⟩ | ⟨ip, bits, hbits, hnetwork, -, heq⟩
  · exact absurd hempty hne
  refine ⟨ip, bits, ?_, heq, hbits, hnetwork⟩
  have hparse : parseCidr source = some (ip, bits) := by
    rw [heq]
    exact parseCidr_displayCidr hbits
  unfold compileSource
  rw [if_neg hne, h]
  simp [hparse]

/-- Whatever normalization accepts compiles. -/
theorem compileSource_isSome (h : normalizeRuleSource source = .ok text) :
    (compileSource source).isSome := by
  unfold compileSource
  split
  · rfl
  · rw [h]
    rfl

/-- A network in which an address lies is the address with its host bits cleared. -/
theorem networkOf_eq_of_cidrMatch {client : IpAddr} (h : networkOf ip bits = ip)
    (hmatch : cidrMatch client ip bits) : networkOf client bits = ip := by
  cases client with
  | v4 client =>
    cases ip with
    | v6 ip => cases hmatch
    | v4 ip =>
      rw [← h]
      by_cases hzero : bits = 0
      · simp [networkOf, prefixMask, hzero]
      · simpa [networkOf, prefixMask, cidrMatch, hzero] using hmatch
  | v6 client =>
    cases ip with
    | v4 ip => cases hmatch
    | v6 ip =>
      rw [← h]
      by_cases hzero : bits = 0
      · simp [networkOf, prefixMask, hzero]
      · simpa [networkOf, prefixMask, cidrMatch, hzero] using hmatch

/-- Two networks of one prefix length that contain the same client are equal. -/
theorem network_unique {client ip' : IpAddr} (h : networkOf ip bits = ip)
    (h' : networkOf ip' bits = ip') (hmatch : cidrMatch client ip bits)
    (hmatch' : cidrMatch client ip' bits) : ip = ip' :=
  (networkOf_eq_of_cidrMatch h hmatch).symm.trans (networkOf_eq_of_cidrMatch h' hmatch')

/-! ## Valid rules compile -/

/-- The rule types that validation knows. -/
def ruleKinds : List Str :=
  ["domain".toList, "domain-suffix".toList, "domain-keyword".toList, "ip-cidr".toList,
    "geoip".toList, "dst-port".toList, "port".toList, "match".toList, "final".toList]

theorem isAscii_of_ruleKinds : ∀ kind ∈ ruleKinds, ∀ c ∈ kind, isAscii c := by
  have hall : ruleKinds.all (fun kind => kind.all isAscii) := by decide
  simpa only [List.all_eq_true] using hall

theorem validatePattern_kind {kind pattern : Str} (h : validatePattern kind pattern = .ok ()) :
    kind ∈ ruleKinds := by
  unfold validatePattern at h
  split at h
  · rename_i hkind
    rcases hkind with rfl | rfl | rfl <;> simp [ruleKinds]
  split at h
  · rename_i hkind
    simp [ruleKinds, hkind.1]
  split at h
  · rename_i hkind
    simp [ruleKinds, hkind.1]
  split at h
  · rename_i hkind
    rcases hkind.1 with rfl | rfl <;> simp [ruleKinds]
  split at h
  · rename_i hkind
    rcases hkind with rfl | rfl <;> simp [ruleKinds]
  · cases h

/-- A pattern that passes validation compiles. -/
theorem compilePattern_isSome {ruleType pattern : Str}
    (h : validatePattern (toAsciiLowercase ruleType) pattern = .ok ()) :
    (compilePattern ruleType pattern).isSome := by
  have hlower := toLowercase_eq_of_toAsciiLowercase rfl
    (isAscii_of_ruleKinds _ (validatePattern_kind h))
  unfold compilePattern
  rw [hlower]
  generalize toAsciiLowercase ruleType = kind at h
  unfold validatePattern at h
  split at h
  · rename_i hkind
    rcases hkind with rfl | rfl | rfl <;> rfl
  split at h
  · rename_i hkind
    obtain ⟨rfl, hcidr⟩ := hkind
    simpa using hcidr
  split at h
  · rename_i hkind
    obtain ⟨rfl, -⟩ := hkind
    rfl
  split at h
  · rename_i hkind
    obtain ⟨hkind, hport⟩ := hkind
    have hsome : (parsePortRange pattern).isSome := by
      cases hrange : parsePortRange pattern with
      | none => simp [hrange] at hport
      | some range => rfl
    rcases hkind with rfl | rfl <;> simpa using hsome
  · split at h
    · rename_i hkind
      rcases hkind with rfl | rfl <;> rfl
    · cases h

/-- What validation says about an enabled rule. -/
theorem validateRule_ok {rule : RoutingRule} (h : validateRule rule = .ok ())
    (henabled : rule.enabled) :
    validTarget rule.target ∧
      validatePattern (toAsciiLowercase rule.ruleType) rule.pattern = .ok () ∧
      ∃ text, normalizeRuleSource rule.source = .ok text := by
  unfold validateRule at h
  rw [henabled] at h
  simp only [Bool.not_true, Bool.false_eq_true, if_false] at h
  split at h
  · cases h
  rename_i htarget
  split at h
  · cases h
  rename_i hpattern
  split at h
  · cases h
  · rename_i text hsource
    exact ⟨by simpa using htarget, hpattern, text, hsource⟩

end Sockrocket
