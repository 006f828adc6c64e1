import SystemdCron.Crontab
import SystemdCron.Lib.Base64

/-!
# The data of the standard input

The `b64` writer takes the input of a job chunk by chunk. However it is cut, what comes out is the encoding
with the alphabet of the writer (`finish_foldl_feed`); this is the one that `StandardInputData=` is read with
as long as its last two digits do not occur.
-/

namespace SystemdCron

open Bytes Base64

namespace B64

/-! ### One group -/

/-- The state between two groups. -/
def between (into : Bytes) : B64 := { acc := 0, accsz := 0, into }

/-- An octet that is put below the bits that are left. -/
theorem lor_octet (a : Nat) (c : UInt8) (n : Nat) :
    a * 2 ^ (8 + n) ||| c.toNat * 2 ^ n = a * 2 ^ (8 + n) + c.toNat * 2 ^ n := by
  have hlt : c.toNat * 2 ^ n < 2 ^ (8 + n) := by
    rw [pow_add]
    exact Nat.mul_lt_mul_of_pos_right c.toNat_lt (by positivity)
  rw [Nat.mul_comm a, Nat.two_pow_add_eq_or_of_lt hlt]

/-- The first octet of a group: two of its bits are left. -/
theorem feedByte_first (into : Bytes) (a : UInt8) :
    (between into).feedByte a =
      { acc := a.toNat % 4 * 16384, accsz := 2, into := into ++ [alphabet.getD (a.toNat / 4) 0] } := by
  have := a.toNat_lt
  have hacc : a.toNat * 256 * 64 % 65536 = a.toNat % 4 * 16384 := by omega
  have hdigit : a.toNat * 256 / 1024 = a.toNat / 4 := by omega
  simp [between, feedByte, drain, put, hacc, hdigit]

/-- The second octet: four bits are left. -/
theorem feedByte_second (into : Bytes) (x : Nat) (b : UInt8) :
    feedByte { acc := x * 16384, accsz := 2, into } b =
      { acc := b.toNat % 16 * 4096, accsz := 4,
        into := into ++ [alphabet.getD (x * 16 + b.toNat / 16) 0] } := by
  have hor : x * 16384 ||| b.toNat * 64 = x * 16384 + b.toNat * 64 := lor_octet x b 6
  have hacc : (x * 16384 + b.toNat * 64) * 64 % 65536 = b.toNat % 16 * 4096 := by omega
  have hdigit : (x * 16384 + b.toNat * 64) / 1024 = x * 16 + b.toNat / 16 := by omega
  simp [feedByte, drain, put, hor, hacc, hdigit]

/-- The third octet: a group is complete. -/
theorem feedByte_third (into : Bytes) (y : Nat) (c : UInt8) :
    feedByte { acc := y * 4096, accsz := 4, into } c =
      between (into ++ [alphabet.getD (y * 4 + c.toNat / 64) 0, alphabet.getD (c.toNat % 64) 0]) := by
  have hacc : (y * 4096 + c.toNat * 16) * 64 % 65536 = c.toNat % 64 * 1024 := by omega
  have hdigit : (y * 4096 + c.toNat * 16) / 1024 = y * 4 + c.toNat / 64 := by omega
  have hacc' : c.toNat % 64 * 1024 * 64 % 65536 = 0 := by
    rw [Nat.mul_assoc]
    exact Nat.mul_mod_left _ _
  have hdigit' : c.toNat % 64 * 1024 / 1024 = c.toNat % 64 := Nat.mul_div_cancel _ (by decide)
  have hor : y * 4096 ||| c.toNat * 16 = y * 4096 + c.toNat * 16 := lor_octet y c 4
  simp [between, feedByte, drain, put, hor, hacc, hdigit, hacc', hdigit']

theorem finish_feed (into s : Bytes) :
    ((between into).feed s).finish = into ++ encode alphabet s := by
  induction s using digits.induct generalizing into with
  | case1 => simp [between, feed, finish, encode, digits, padding]
  | case2 a =>
    have hdigit : a.toNat % 4 * 16384 / 1024 = a.toNat % 4 * 16 := by omega
    simp only [feed, List.foldl_cons, List.foldl_nil, feedByte_first]
    simp [finish, encode, digits, padding, hdigit]
  | case3 a b =>
    have hdigit : b.toNat % 16 * 4096 / 1024 = b.toNat % 16 * 4 := by omega
    simp only [feed, List.foldl_cons, List.foldl_nil, feedByte_first, feedByte_second]
    simp [finish, encode, digits, padding, hdigit]
  | case4 a b c r ih =>
    have hfeed : (between into).feed (a :: b :: c :: r) = (between (into ++
        [alphabet.getD (a.toNat / 4) 0, alphabet.getD (a.toNat % 4 * 16 + b.toNat / 16) 0,
          alphabet.getD (b.toNat % 16 * 4 + c.toNat / 64) 0, alphabet.getD (c.toNat % 64) 0])).feed r := by
      simp only [feed, List.foldl_cons, feedByte_first, feedByte_second, feedByte_third]
      simp
    rw [hfeed, ih]
    simp [encode, digits, padding]

/-- **Streaming**: however the input is cut, the writer encodes it with its alphabet. -/
theorem finish_foldl_feed (chunks : List Bytes) :
    (chunks.foldl feed {}).finish = encode alphabet chunks.flatten := by
  have hflatten : ∀ b : B64, chunks.foldl feed b = b.feed chunks.flatten := by
    intro b
    unfold feed
    rw [List.foldl_flatten]
  rw [hflatten]
  exact finish_feed [] _

/-- The alphabets differ in their last two characters, which the standard one does not have. -/
theorem alphabet_getD {d : Nat} (hd : d < 64) :
    (alphabet.getD d 0 = standardAlphabet.getD d 0 ↔ d < 62) ∧
      (alphabet.getD d 0 ∈ standardAlphabet ↔ d < 62) := by
  have : ∀ d : Fin 64, (alphabet.getD d 0 = standardAlphabet.getD d 0 ↔ d.val < 62) ∧
      (alphabet.getD d 0 ∈ standardAlphabet ↔ d.val < 62) := by decide +kernel
  exact this ⟨d, hd⟩

/-- **Standard base64** is what the writer writes exactly if no six bits of the input are 62 or 63. -/
theorem standard_base64_iff (chunks : List Bytes) :
    ((chunks.foldl feed {}).finish = encode standardAlphabet chunks.flatten ∧
      decode standardAlphabet (chunks.foldl feed {}).finish = some chunks.flatten) ↔
    ∀ d ∈ digits chunks.flatten, d < 62 := by
  rw [finish_foldl_feed]
  constructor
  · rintro ⟨-, h⟩ d hd
    exact (alphabet_getD (digit_lt d hd)).2.1
      (getD_mem_of_decode (by decide +kernel) (by decide +kernel) h d hd)
  · intro h
    rw [encode_congr fun d hd => (alphabet_getD (digit_lt d hd)).1.2 (h d hd)]
    exact ⟨rfl, decode_encode (by decide +kernel) (by decide +kernel) (by decide +kernel) _⟩

/-- A job whose input has a digit that the alphabets write differently. -/
def tildesJob : Job := (systemJobs (lit "* * * * * root cat%~~~")).get ⟨0, by decide +kernel⟩

theorem standard_base64_tildes :
    tildesJob.inputChunks.flatten = lit "~~~" ∧
      lit "StandardInputData=fn5-" ∈ tildesJob.generateService {} .bare ∧
      (tildesJob.inputChunks.foldl feed {}).finish = lit "fn5-" ∧
      encode standardAlphabet (lit "~~~") = lit "fn5+" ∧ decode standardAlphabet (lit "fn5-") = none := by
  decide +kernel

end B64

end SystemdCron
