import AgentOS.Identifiers
import AgentOS.Lib.Digits
import Mathlib.Order.Fin.Basic
import Mathlib.Data.Prod.Lex
import Mathlib.Data.String.Basic
import Mathlib.Order.Hom.Set

/-!
# The order of ULIDs

A ULID is the numeral of width 26 in base 32 of its timestamp and randomness, read as one number of 128 bits.  The
alphabet is increasing, so ULIDs are ordered as these numbers; and of the numerals of that width those below `2 ^ 128`
are the ones that begin with a digit below 8.
-/

namespace AgentOS

open Digits

/-- The digit `d` in the alphabet. -/
private def symbol (d : Nat) : Char := crockford.getD d '0'

private theorem symbol_strictMonoOn : StrictMonoOn symbol {d | d < 32} := by
  have h : ∀ d : Fin 32, ∀ e : Fin 32, d < e → symbol d < symbol e := by decide +kernel
  exact fun d hd e he => h ⟨d, hd⟩ ⟨e, he⟩

private theorem symbol_mem {d : Nat} (hd : d < 32) : symbol d ∈ crockford := by
  have h : ∀ d : Fin 32, symbol d ∈ crockford := by decide +kernel
  exact h ⟨d, hd⟩

private theorem symbol_idxOf {c : Char} (hc : c ∈ crockford) : symbol (crockford.idxOf c) = c := by
  rw [symbol, List.getD_eq_getElem _ _ (List.idxOf_lt_length_of_mem hc), List.getElem_idxOf]

/-- The digits below 8 are the ones that a ULID may begin with. -/
private theorem symbol_leading {d : Nat} (hd : d < 32) : symbol d ∈ "01234567".toList ↔ d < 8 := by
  have h : ∀ d : Fin 32, symbol d ∈ "01234567".toList ↔ (d : Nat) < 8 := by decide +kernel
  exact h ⟨d, hd⟩

/-- The text of a number of 128 bits. -/
private def spell (n : Nat) : String := String.ofList ((digits 32 ulidLength n).map symbol)

private theorem lt_of_mem_digits₃₂ {width n : Nat} : ∀ d ∈ digits 32 width n, d < 32 :=
  fun _ => lt_of_mem_digits (by decide)

private theorem reverse_crockfordDigits (value length : Nat) :
    (crockfordDigits value length).1.reverse = (digits 32 length value).map symbol := by
  induction length generalizing value with
  | zero => rfl
  | succ length ih =>
    rw [crockfordDigits, List.reverse_cons, ih, digits_succ, List.map_append]
    rfl

private theorem encodeCrockford_eq {n : Nat} (h : n < 2 ^ 128) : encodeCrockford n ulidLength = some (spell n) := by
  have hrest : (crockfordDigits n ulidLength).2 = 0 := by
    rw [crockfordDigits_rest]
    exact Nat.div_eq_of_lt (Nat.lt_trans h (by decide))
  unfold encodeCrockford
  dsimp only
  rw [if_pos hrest, reverse_crockfordDigits]
  rfl

/-- Texts are ordered as the numbers. -/
private theorem spell_lt_spell {m n : Nat} (hm : m < 2 ^ 128) (hn : n < 2 ^ 128) : spell m < spell n ↔ m < n := by
  have hvalue : ∀ {k : Nat}, k < 2 ^ 128 → value 32 (digits 32 ulidLength k) = k := fun hk =>
    (value_digits _ _).trans (Nat.mod_eq_of_lt (Nat.lt_trans hk (by decide)))
  rw [spell, spell, String.lt_iff, String.toList_ofList, String.toList_ofList,
    map_lt_map symbol_strictMonoOn lt_of_mem_digits₃₂ lt_of_mem_digits₃₂,
    ← value_lt_value (by rw [length_digits, length_digits]) lt_of_mem_digits₃₂ lt_of_mem_digits₃₂, hvalue hm, hvalue hn]

private theorem isValidUlid_iff {text : String} : isValidUlid text = true ↔
    text.toList.length = ulidLength ∧ (∃ c ∈ text.toList.head?, c ∈ "01234567".toList) ∧
      ∀ c ∈ text.toList, c ∈ crockford := by
  rw [isValidUlid, String.length_toList]
  simp only [Bool.and_eq_true, decide_eq_true_eq, Option.any_eq_true, List.contains_iff_mem, List.all_eq_true,
    Option.mem_def, and_assoc]

private theorem isValidUlid_spell {n : Nat} (h : n < 2 ^ 128) : isValidUlid (spell n) = true := by
  rw [isValidUlid_iff, spell, String.toList_ofList]
  refine ⟨by rw [List.length_map, length_digits], ?_, ?_⟩
  · have hlead : n / 32 ^ 25 % 32 < 8 := by omega
    exact ⟨symbol (n / 32 ^ 25 % 32), rfl, (symbol_leading (by omega)).2 hlead⟩
  · intro c hc
    obtain ⟨d, hd, rfl⟩ := List.mem_map.1 hc
    exact symbol_mem (lt_of_mem_digits₃₂ d hd)

/-- Every text that is accepted is the text of a number of 128 bits. -/
private theorem exists_spell {text : String} (h : isValidUlid text = true) : ∃ n < 2 ^ 128, spell n = text := by
  obtain ⟨hlen, ⟨first, hfirst, hlead⟩, hall⟩ := isValidUlid_iff.1 h
  have hdigits : ∀ d ∈ text.toList.map crockford.idxOf, d < 32 := by
    intro d hd
    obtain ⟨c, hc, rfl⟩ := List.mem_map.1 hd
    exact List.idxOf_lt_length_of_mem (hall c hc)
  have hmap : (text.toList.map crockford.idxOf).map symbol = text.toList := by
    rw [List.map_map]
    exact (List.map_congr_left fun c hc => symbol_idxOf (hall c hc)).trans (List.map_id _)
  refine ⟨value 32 (text.toList.map crockford.idxOf), ?_, ?_⟩
  · obtain ⟨rest, hrest⟩ := List.head?_eq_some_iff.1 hfirst
    rw [hrest] at hlen hdigits hall ⊢
    have hlow := value_lt fun d hd => hdigits d (List.mem_cons_of_mem _ hd)
    have hhead : crockford.idxOf first < 8 := by
      rw [← symbol_leading (hdigits _ List.mem_cons_self), symbol_idxOf (hall _ List.mem_cons_self)]
      exact hlead
    have hwidth : (rest.map crockford.idxOf).length = 25 := by
      rw [List.length_map]
      exact Nat.succ.inj hlen
    rw [hwidth] at hlow
    rw [List.map_cons, value, hwidth]
    omega
  · rw [spell, ← hlen, ← List.length_map (f := crockford.idxOf), digits_value hdigits, hmap, String.ofList_toList]

/-! ### The codec -/

private theorem or_eq_add (timestampMs : Nat) (randomness : BitVec 80) :
    timestampMs <<< 80 ||| randomness.toNat = timestampMs * 2 ^ 80 + randomness.toNat := by
  rw [← Nat.shiftLeft_add_eq_or_of_lt randomness.isLt, Nat.shiftLeft_eq]

private theorem generateUlid_eq (timestampMs : Fin (2 ^ 48)) (randomness : Fin (2 ^ 80)) :
    generateUlid timestampMs (BitVec.ofFin randomness) = some (spell (timestampMs * 2 ^ 80 + randomness)) := by
  have htime := timestampMs.isLt
  have hrandom := randomness.isLt
  rw [generateUlid, if_pos (by unfold maxTimestamp; omega), or_eq_add]
  exact encodeCrockford_eq (by show _ + (randomness : Nat) < _; omega)

/-- The numbers of 128 bits with their texts. -/
private def codec (pair : Fin (2 ^ 48) ×ₗ Fin (2 ^ 80)) : {ulid : String // isValidUlid ulid = true} :=
  ⟨spell ((ofLex pair).1 * 2 ^ 80 + (ofLex pair).2), isValidUlid_spell (by
    have := (ofLex pair).1.isLt
    have := (ofLex pair).2.isLt
    omega)⟩

private theorem codec_strictMono : StrictMono codec := by
  intro p q hpq
  have hp := (ofLex p).2.isLt
  have hq := (ofLex q).2.isLt
  have hp' := (ofLex p).1.isLt
  have hq' := (ofLex q).1.isLt
  show spell _ < spell _
  rw [spell_lt_spell (by omega) (by omega)]
  rcases Prod.Lex.lt_iff.1 hpq with htime | ⟨htime, hrandom⟩
  · rw [Fin.lt_def] at htime
    omega
  · rw [Fin.lt_def] at hrandom
    rw [htime]
    omega

private theorem codec_surjective : Function.Surjective codec := by
  rintro ⟨text, htext⟩
  obtain ⟨n, hn, rfl⟩ := exists_spell htext
  refine ⟨toLex (⟨n / 2 ^ 80, by omega⟩, ⟨n % 2 ^ 80, Nat.mod_lt _ (by decide)⟩), Subtype.ext ?_⟩
  show spell (n / 2 ^ 80 * 2 ^ 80 + n % 2 ^ 80) = spell n
  rw [Nat.div_add_mod']

/-! ### Prefixed ids -/

private theorem underscore_notMem {stem : String} (h : stem ∈ knownPrefixes) : '_' ∉ stem.toList := by
  have hall : ∀ stem ∈ knownPrefixes, '_' ∉ stem.toList := by decide +kernel
  exact hall stem h

private theorem splitId_eq_some {id stem ulid : String} :
    splitId id = some (stem, ulid) ↔ id = stem ++ "_" ++ ulid ∧ stem ∈ knownPrefixes ∧ isValidUlid ulid = true := by
  constructor
  · intro h
    unfold splitId at h
    split at h
    case h_1 => cases h
    case h_2 before after hcut =>
      split at h
      case isTrue hok =>
        obtain ⟨rfl, rfl⟩ := Prod.mk.inj (Option.some.inj h)
        exact ⟨(partition?_eq_some.1 hcut).1, hok⟩
      case isFalse => cases h
  · rintro ⟨rfl, hok⟩
    have hcut : partition? '_' (stem ++ "_" ++ ulid) = some (stem, ulid) :=
      partition?_eq_some.2 ⟨rfl, underscore_notMem hok.1⟩
    rw [splitId, hcut]
    exact if_pos hok

/-- Encoding is an order isomorphism from the pairs of a 48-bit timestamp and 80 random bits, ordered by timestamp and
then by randomness, onto the texts that `is_valid_ulid` accepts; and `split_id` accepts just what `new_id` can mint and
gives back its parts. -/
theorem ulid_codec :
    (∃ iso : (Fin (2 ^ 48) ×ₗ Fin (2 ^ 80)) ≃o {ulid : String // isValidUlid ulid = true},
      ∀ (timestampMs : Fin (2 ^ 48)) (randomness : Fin (2 ^ 80)), generateUlid timestampMs (BitVec.ofFin randomness) =
        some (iso (toLex (timestampMs, randomness))).1) ∧
    ∀ stem id ulid, splitId id = some (stem, ulid) ↔
      ∃ timestampMs randomness, newId stem timestampMs randomness = some id ∧
        generateUlid timestampMs randomness = some ulid := by
  refine ⟨⟨codec_strictMono.orderIsoOfSurjective codec codec_surjective, generateUlid_eq⟩, fun stem id ulid => ?_⟩
  rw [splitId_eq_some]
  constructor
  · rintro ⟨rfl, hstem, hulid⟩
    obtain ⟨⟨timestampMs, randomness⟩, hcodec⟩ := codec_surjective ⟨ulid, hulid⟩
    have hspell : generateUlid timestampMs (BitVec.ofFin randomness) = some ulid := by
      rw [generateUlid_eq]
      exact congrArg (fun text => some text.1) hcodec
    exact ⟨timestampMs, BitVec.ofFin randomness, by rw [newId, if_pos hstem, hspell]; rfl, hspell⟩
  · rintro ⟨timestampMs, randomness, hid, hulid⟩
    unfold newId at hid
    split at hid
    case isTrue hstem =>
      rw [hulid] at hid
      obtain rfl := Option.some.inj hid
      refine ⟨rfl, hstem, ?_⟩
      have htime : timestampMs < 2 ^ 48 := by
        unfold generateUlid maxTimestamp at hulid
        split at hulid
        · omega
        · cases hulid
      have hspell := generateUlid_eq ⟨timestampMs, htime⟩ randomness.toFin
      obtain rfl := Option.some.inj (hulid.symm.trans hspell)
      exact isValidUlid_spell (by have := randomness.isLt; omega)
    case isFalse => cases hid

end AgentOS
