import MeshNumbering.Proofs.Message.RoundTrip
import MeshNumbering.Proofs.Ordered.Weight

/-! How long bodies are. What can be long are lists of numbers and node lists by chare. -/

namespace MeshNumbering

def entryLength (l : List Nat) : Nat := 16 + 8 * l.length

namespace Bytes

theorem length_words (l : List Nat) : (sequence word l).length = 8 + 8 * l.length := by
  have hwords : (l.flatMap word).length = 8 * l.length := by
    induction l with
    | nil => rfl
    | cons n l ih => rw [List.flatMap_cons, List.length_append, length_word, ih, List.length_cons,
        Nat.mul_succ, Nat.add_comm]
  unfold Bytes.sequence
  rw [List.length_append, length_word, hwords]

end Bytes

theorem Utf8.length_encode_bounds (s : List Char) :
    s.length ≤ (encode s).length ∧ (encode s).length ≤ 4 * s.length := by
  induction s with
  | nil => exact ⟨Nat.le_refl 0, Nat.le_refl 0⟩
  | cons c s ih =>
    have hchar : 1 ≤ (encodeChar c).length ∧ (encodeChar c).length ≤ 4 := by
      unfold encodeChar
      dsimp only
      split_ifs <;> simp
    rw [show encode (c :: s) = encodeChar c ++ encode s from rfl, List.length_append,
      List.length_cons]
    omega

namespace Message
open Bytes

theorem length_lists (m : NodeLists) :
    (sequence (writeEntry (sequence word)) m.entries).length = 8 + m.weight entryLength := by
  have hentries : ∀ l : List (Nat × List Nat), (l.flatMap (writeEntry (sequence word))).length =
      ((l.map Prod.snd).map entryLength).sum := by
    intro l
    induction l with
    | nil => rfl
    | cons e l ih =>
      rw [List.flatMap_cons, List.length_append, length_writeEntry, length_words, ih, List.map_cons,
        List.map_cons, List.sum_cons, entryLength, ← Nat.add_assoc]
  show (word _ ++ m.entries.flatMap (writeEntry (sequence word))).length = _
  rw [List.length_append, length_word, hentries]
  rfl

theorem length_ids (ids : NatMap Nat) :
    (sequence (writeEntry word) ids.entries).length = 8 + 16 * ids.size := by
  have hentries : ∀ l : List (Nat × Nat), (l.flatMap (writeEntry word)).length = 16 * l.length := by
    intro l
    induction l with
    | nil => rfl
    | cons e l ih => rw [List.flatMap_cons, List.length_append, length_writeEntry, length_word, ih,
        List.length_cons, Nat.mul_succ, Nat.add_comm]
  unfold Bytes.sequence
  rw [List.length_append, length_word, hentries]
  rfl

theorem length_body_le {m : Message} {bound : Nat}
    (h : match m with
      | batch _ lists | mask _ lists => lists.weight entryLength ≤ bound
      | query _ nodes | request _ nodes => 8 * nodes.length ≤ bound
      | assigned _ ids => 16 * ids.size ≤ bound
      | abort .. => False
      | _ => True) : m.body.length ≤ 20 + bound := by
  rw [length_body]
  cases m
  case abort => exact h.elim
  all_goals
    simp only [fields, List.length_append, length_word, length_lists, length_words, length_ids]
      at h ⊢
    omega

theorem length_body_abort_le (pe : Nat) (reason : String) :
    (abort pe reason).body.length ≤ 20 + 4 * reason.length := by
  have hreason := (Utf8.length_encode_bounds reason.toList).2
  rw [String.length_toList] at hreason
  rw [length_body]
  simp only [fields, List.length_append, length_word]
  omega

theorem le_length_body_abort (pe : Nat) (reason : String) :
    reason.length ≤ (abort pe reason).body.length := by
  have hreason := (Utf8.length_encode_bounds reason.toList).1
  rw [String.length_toList] at hreason
  rw [length_body]
  simp only [fields, List.length_append]
  omega

end Message
end MeshNumbering
