import SystemdCron.Lib.Bytes

/-!
# Base64

The encoding of octets as groups of four characters of an alphabet, with its padding, and the decoding.
`decode_encode` is the round trip, and `encode_congr` says when two alphabets write the same.
-/

namespace Base64

open Bytes

/-- The digits of an octet string: six bits each, the last ones filled up with zeros. -/
def digits : Bytes → List Nat
  | [] => []
  | [a] => [a.toNat / 4, a.toNat % 4 * 16]
  | [a, b] => [a.toNat / 4, a.toNat % 4 * 16 + b.toNat / 16, b.toNat % 16 * 4]
  | a :: b :: c :: r =>
    a.toNat / 4 :: (a.toNat % 4 * 16 + b.toNat / 16) :: (b.toNat % 16 * 4 + c.toNat / 64) ::
      c.toNat % 64 :: digits r

/-- What fills up the last group. -/
def padding : Bytes → Bytes
  | [_] => [EQUALS, EQUALS]
  | [_, _] => [EQUALS]
  | _ :: _ :: _ :: r => padding r
  | [] => []

def encode (alphabet : Bytes) (s : Bytes) : Bytes := (digits s).map (alphabet.getD · 0) ++ padding s

/-- The octets of some digits: what does not fill an octet is dropped. -/
def octets : List Nat → Bytes
  | a :: b :: c :: d :: r =>
    (a * 4 + b / 16).toUInt8 :: (b % 16 * 16 + c / 4).toUInt8 :: (c % 4 * 64 + d).toUInt8 :: octets r
  | [a, b, c] => [(a * 4 + b / 16).toUInt8, (b % 16 * 16 + c / 4).toUInt8]
  | [a, b] => [(a * 4 + b / 16).toUInt8]
  | _ => []

/-- The decoding of whole groups, the last of which may be filled up with one or two `=`. -/
def decode (alphabet : Bytes) (text : Bytes) : Option Bytes :=
  let body := text.takeWhile (· != EQUALS)
  if text.length % 4 = 0 ∧ text.drop body.length ∈ [[], [EQUALS], [EQUALS, EQUALS]] then
    (body.mapM fun c => alphabet.idxOf? c).map octets
  else none

/-- The alphabet of RFC 4648, section 4. -/
def standardAlphabet : Bytes := lit "ABCDEFGHIJKLMNOPQRSTUVWXYZabcdefghijklmnopqrstuvwxyz0123456789+/"

theorem digit_lt {s : Bytes} : ∀ d ∈ digits s, d < 64 := by
  induction s using digits.induct with
  | case1 => nofun
  | case2 a =>
    have := a.toNat_lt
    simp only [digits, List.forall_mem_cons]
    exact ⟨by omega, by omega, nofun⟩
  | case3 a b =>
    have := a.toNat_lt
    have := b.toNat_lt
    simp only [digits, List.forall_mem_cons]
    exact ⟨by omega, by omega, by omega, nofun⟩
  | case4 a b c r ih =>
    have := a.toNat_lt
    have := b.toNat_lt
    have := c.toNat_lt
    simp only [digits, List.forall_mem_cons]
    exact ⟨by omega, by omega, by omega, by omega, ih⟩

/-! ### Round trip -/

theorem toUInt8_eq {n : Nat} {a : UInt8} (h : n = a.toNat) : n.toUInt8 = a := by
  rw [h]
  exact UInt8.ofNat_toNat

theorem octets_digits (s : Bytes) : octets (digits s) = s := by
  induction s using digits.induct with
  | case1 => rfl
  | case2 a =>
    rw [digits, octets, toUInt8_eq (a := a) (by omega)]
  | case3 a b =>
    have := b.toNat_lt
    rw [digits, octets, toUInt8_eq (a := a) (by omega), toUInt8_eq (a := b) (by omega)]
  | case4 a b c r ih =>
    have := b.toNat_lt
    have := c.toNat_lt
    rw [digits, octets, ih, toUInt8_eq (a := a) (by omega), toUInt8_eq (a := b) (by omega),
      toUInt8_eq (a := c) (by omega)]

theorem padding_spec (s : Bytes) :
    padding s ∈ [[], [EQUALS], [EQUALS, EQUALS]] ∧ ((digits s).length + (padding s).length) % 4 = 0 := by
  induction s using digits.induct with
  | case1 => exact ⟨by decide, rfl⟩
  | case2 a => exact ⟨by simp [padding], by simp [digits, padding]⟩
  | case3 a b => exact ⟨by simp [padding], by simp [digits, padding]⟩
  | case4 a b c r ih =>
    rw [digits, padding]
    refine ⟨ih.1, ?_⟩
    simp only [List.length_cons]
    omega

section
variable {alphabet : Bytes}

theorem encode_body (hpad : EQUALS ∉ alphabet) (hlen : alphabet.length = 64) (s : Bytes) :
    (encode alphabet s).takeWhile (· != EQUALS) = (digits s).map (alphabet.getD · 0) := by
  have hne : ∀ c ∈ (digits s).map (alphabet.getD · 0), (c != EQUALS) = true := by
    intro c hc
    obtain ⟨d, hd, rfl⟩ := List.mem_map.1 hc
    refine bne_iff_ne.2 fun h => hpad (h ▸ ?_)
    rw [List.getD_eq_getElem _ _ (hlen ▸ digit_lt d hd)]
    exact List.getElem_mem _
  rw [encode, List.takeWhile_append_of_pos hne]
  have hpadding := (padding_spec s).1
  simp only [List.mem_cons, List.not_mem_nil, or_false] at hpadding
  rcases hpadding with h | h | h <;> rw [h] <;> simp

/-- The digits are read back from their characters if none of those is a stranger to the alphabet of the
reader. -/
theorem decode_encode_eq (hpad : EQUALS ∉ alphabet) (hlen : alphabet.length = 64) (alphabet' s : Bytes) :
    decode alphabet' (encode alphabet s) =
      (((digits s).map (alphabet.getD · 0)).mapM fun c => alphabet'.idxOf? c).map octets := by
  obtain ⟨h1, h2⟩ := padding_spec s
  unfold decode
  rw [encode_body hpad hlen]
  refine if_pos ⟨?_, ?_⟩
  · simpa [encode] using h2
  · simpa [encode] using h1

theorem idxOf?_getD (hn : alphabet.Nodup) {d : Nat} (hd : d < alphabet.length) :
    alphabet.idxOf? (alphabet.getD d 0) = some d := by
  rw [List.getD_eq_getElem _ _ hd, List.idxOf?_eq_some_iff]
  refine ⟨hd, by simp, fun j hj => ?_⟩
  simpa using fun h => absurd ((List.Nodup.getElem_inj_iff hn).1 h) (by omega)

/-- **Round trip.** -/
theorem decode_encode (hn : alphabet.Nodup) (hpad : EQUALS ∉ alphabet) (hlen : alphabet.length = 64)
    (s : Bytes) : decode alphabet (encode alphabet s) = some s := by
  have hmap : ∀ ds : List Nat, (∀ d ∈ ds, d < 64) →
      (ds.map (alphabet.getD · 0)).mapM (fun c => alphabet.idxOf? c) = some ds := by
    intro ds hds
    induction ds with
    | nil => rfl
    | cons d ds ih =>
      obtain ⟨hd, hds⟩ := List.forall_mem_cons.1 hds
      rw [List.map_cons, List.mapM_cons, idxOf?_getD hn (hlen ▸ hd), ih hds]
      rfl
  rw [decode_encode_eq hpad hlen, hmap _ digit_lt, Option.map_some, octets_digits]

/-- What is read back with another alphabet is the octets only if every character that was written is one of
its own. -/
theorem getD_mem_of_decode {alphabet' : Bytes} (hpad : EQUALS ∉ alphabet) (hlen : alphabet.length = 64)
    {s t : Bytes} (h : decode alphabet' (encode alphabet s) = some t) :
    ∀ d ∈ digits s, alphabet.getD d 0 ∈ alphabet' := by
  rw [decode_encode_eq hpad hlen] at h
  obtain ⟨ds, hds, -⟩ := Option.map_eq_some_iff.1 h
  generalize digits s = es at hds
  induction es generalizing ds with
  | nil => nofun
  | cons e es ih =>
    rw [List.map_cons, List.mapM_cons] at hds
    rcases he : alphabet'.idxOf? (alphabet.getD e 0) with - | i
    · rw [he] at hds; cases hds
    rw [he] at hds
    rcases hes : (es.map (alphabet.getD · 0)).mapM (fun c => alphabet'.idxOf? c) with - | ds'
    · rw [hes] at hds; cases hds
    refine List.forall_mem_cons.2 ⟨?_, ih ds' hes⟩
    exact List.isSome_idxOf?.1 (by rw [he]; rfl)

/-- Two alphabets write the same where they agree. -/
theorem encode_congr {alphabet' s : Bytes} (h : ∀ d ∈ digits s, alphabet.getD d 0 = alphabet'.getD d 0) :
    encode alphabet s = encode alphabet' s := by
  rw [encode, encode, List.map_congr_left h]

end

end Base64
