import Club.Transport.Socket.Basic

/-!
What the results over two endpoints need of an `AckSet`. Its header is not
among the sources, so the socket is modelled over every implementation of the
interface; `LawfulAckSet` states the laws a correct one has: `is_in` reports
only numbers that were added, and decoding an encoded set reports only numbers
of that set, whatever follows it in the datagram. The last law is the
`assert(!encoder.error())` of `start_sending`: the encoded set fits in a packet,
as the fixed-width window of §2 does.

`RecentAckSet`, the numbers most recently added up to a fixed capacity, is an
implementation on which the laws hold; it shows they can be met together.
-/

namespace Club.Transport

section RoundTrip

theorem beValue_append_single (bs : List UInt8) (b : UInt8) :
    beValue (bs ++ [b]) = beValue bs * 256 + b.toNat := by
  simp [beValue, List.foldl_append]

/-- Reading back `w` big-endian bytes gives the value modulo `256 ^ w`. -/
theorem beValue_beBytes (w n : Nat) : beValue (beBytes w n) = n % 256 ^ w := by
  induction w generalizing n with
  | zero => simp [beBytes, beValue, Nat.mod_one]
  | succ w ih =>
    have hb : ((n % 256).toUInt8).toNat = n % 256 % 256 := rfl
    rw [beBytes, beValue_append_single, ih, hb, Nat.pow_succ', Nat.mod_mul]
    omega

theorem getNat_beBytes (w n : Nat) (rest : List UInt8) :
    getNat w (beBytes w n ++ rest) = some (n % 256 ^ w, rest) := by
  simp [getNat, getBytes, List.take_left', List.drop_left', beValue_beBytes]

theorem toUInt32_toNat_mod (sn : SequenceNumber) : (sn.toNat % 4294967296).toUInt32 = sn := by
  have h : sn.toNat % 4294967296 = sn.toNat := Nat.mod_eq_of_lt sn.val.isLt
  rw [h]
  exact UInt32.toNat.inj h

theorem decodeSns_encode (sns : List SequenceNumber) (rest : List UInt8) :
    ListAckSet.decodeSns sns.length ((sns.map fun sn => beBytes 4 sn.toNat).flatten ++ rest) =
      some (sns, rest) := by
  induction sns with
  | nil => rfl
  | cons sn sns ih =>
    rw [List.length_cons, List.map_cons, List.flatten_cons, List.append_assoc, ListAckSet.decodeSns,
      getNat_beBytes]
    simp [ih, toUInt32_toNat_mod]

/-- A `ListAckSet` of fewer than `2 ^ 16` numbers reads back as written. -/
theorem ListAckSet.decode_encode (a : ListAckSet) (rest : List UInt8)
    (h : a.sns.length < 256 ^ 2) :
    AckSet.decode (AckSet.encode a ++ rest) = some (a, rest) := by
  simp only [AckSet.encode, AckSet.decode, List.append_assoc, getNat_beBytes,
    Nat.mod_eq_of_lt h]
  simp [decodeSns_encode]

end RoundTrip

/-- The laws of a correct `AckSet` that the results over two endpoints use. -/
class LawfulAckSet (α : Type) [AckSet α] : Prop where
  isIn_empty (s : SequenceNumber) : AckSet.isIn (AckSet.empty : α) s = false
  isIn_tryAdd {a : α} {x s : SequenceNumber} :
    AckSet.isIn (AckSet.tryAdd a x) s = true → AckSet.isIn a s = true ∨ s = x
  isIn_decode {a a' : α} {rest r : List UInt8} {s : SequenceNumber} :
    AckSet.decode (AckSet.encode a ++ rest) = some (a', r) →
      AckSet.isIn a' s = true → AckSet.isIn a s = true
  encode_fits (a : α) : (AckSet.encode a).length ≤ packetSize

/-- A reference `AckSet` of bounded size: the last 32 distinct numbers added,
written as a `ListAckSet`. -/
structure RecentAckSet where
  sns : List SequenceNumber
  bounded : sns.length ≤ 32

instance : AckSet RecentAckSet where
  empty := ⟨[], Nat.zero_le _⟩
  tryAdd a sn := if sn ∈ a.sns then a else ⟨(sn :: a.sns).take 32, List.length_take_le _ _⟩
  canAdd a sn := sn ∉ a.sns
  isIn a sn := sn ∈ a.sns
  encode a := AckSet.encode (⟨a.sns⟩ : ListAckSet)
  decode bytes := (AckSet.decode bytes : Option (ListAckSet × List UInt8)).bind fun (l, rest) =>
    if h : l.sns.length ≤ 32 then some (⟨l.sns, h⟩, rest) else none

theorem RecentAckSet.encode_length (a : RecentAckSet) :
    (AckSet.encode a).length = 2 + 4 * a.sns.length := by
  have : ∀ sns : List SequenceNumber,
      ((sns.map fun sn => beBytes 4 sn.toNat).flatten).length = 4 * sns.length := by
    intro sns; induction sns <;> simp [*]; omega
  simp [AckSet.encode, this]

/-- A `RecentAckSet` reads back as written, whatever follows it. -/
theorem RecentAckSet.decode_encode (a : RecentAckSet) (rest : List UInt8) :
    AckSet.decode (AckSet.encode a ++ rest) = some (a, rest) := by
  have hd := ListAckSet.decode_encode ⟨a.sns⟩ rest (by
    have := a.bounded; show a.sns.length < 256 ^ 2; omega)
  change (AckSet.decode (AckSet.encode (⟨a.sns⟩ : ListAckSet) ++ rest)).bind _ = _
  rw [hd]
  simp [a.bounded]

instance : LawfulAckSet RecentAckSet where
  isIn_empty _ := rfl
  isIn_tryAdd {a x s} h := by
    simp only [AckSet.isIn, AckSet.tryAdd, decide_eq_true_eq] at h ⊢
    split_ifs at h with hx
    · exact .inl h
    · rcases List.mem_cons.mp (List.mem_of_mem_take h) with rfl | h
      exacts [.inr rfl, .inl h]
  isIn_decode {a a' rest r s} h hs := by
    rw [RecentAckSet.decode_encode] at h
    obtain ⟨rfl, -⟩ := Prod.mk.inj (Option.some.inj h)
    exact hs
  encode_fits a := by
    rw [RecentAckSet.encode_length]
    have := a.bounded
    simp only [packetSize]
    omega

end Club.Transport
