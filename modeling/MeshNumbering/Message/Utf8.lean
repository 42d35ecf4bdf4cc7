import MeshNumbering.Fault

/-! Text as UTF-8. Decoding says where the first ill-formed sequence begins and how many of its
bytes could have started a character, or that the bytes end inside a character. -/

namespace MeshNumbering.Utf8

def tail (n : Nat) : UInt8 := UInt8.ofNat (0x80 + n % 64)

def encodeChar (c : Char) : List UInt8 :=
  let n := c.toNat
  if n < 0x80 then [UInt8.ofNat n]
  else if n < 0x800 then [UInt8.ofNat (0xc0 + n / 64), tail n]
  else if n < 0x10000 then [UInt8.ofNat (0xe0 + n / 4096), tail (n / 64), tail n]
  else [UInt8.ofNat (0xf0 + n / 262144), tail (n / 4096), tail (n / 64), tail n]

def encode (s : List Char) : List UInt8 := s.flatMap encodeChar

/-- What a first byte announces: its share of the code point, how many bytes follow, and the range
the next one must lie in. -/
structure Lead where
  share : Nat
  follow : Nat
  least : UInt8
  most : UInt8

def lead? (b : UInt8) : Option Lead :=
  if b < 0xc2 then none
  else if b < 0xe0 then some ⟨b.toNat - 0xc0, 1, 0x80, 0xbf⟩
  else if b = 0xe0 then some ⟨0, 2, 0xa0, 0xbf⟩
  else if b = 0xed then some ⟨0xd, 2, 0x80, 0x9f⟩
  else if b < 0xf0 then some ⟨b.toNat - 0xe0, 2, 0x80, 0xbf⟩
  else if b = 0xf0 then some ⟨0, 3, 0x90, 0xbf⟩
  else if b < 0xf4 then some ⟨b.toNat - 0xf0, 3, 0x80, 0xbf⟩
  else if b = 0xf4 then some ⟨4, 3, 0x80, 0x8f⟩
  else none

/-- How the bytes after a first byte turn out: a code point and the bytes left, an ill-formed
sequence of so many bytes, or no more bytes. -/
inductive Tail where
  | complete (code : Nat) (rest : List UInt8)
  | illFormed (length : Nat)
  | cut

def follow (code taken : Nat) : Nat → UInt8 → UInt8 → List UInt8 → Tail
  | 0, _, _, l => .complete code l
  | _ + 1, _, _, [] => .cut
  | n + 1, least, most, b :: l =>
    if least ≤ b ∧ b ≤ most then
      follow (code * 64 + b.toNat % 64) (taken + 1) n 0x80 0xbf l
    else .illFormed taken

theorem length_of_follow {code taken n c : Nat} {least most : UInt8} {l rest : List UInt8}
    (h : follow code taken n least most l = .complete c rest) : rest.length ≤ l.length := by
  induction n generalizing code taken least most l with
  | zero => simp only [follow, Tail.complete.injEq] at h; simp [h.2]
  | succ n ih =>
    cases l with
    | nil => simp [follow] at h
    | cons b l =>
      simp only [follow] at h
      split at h
      · exact Nat.le_succ_of_le (ih h)
      · simp at h

def decodeFrom (position : Nat) : List UInt8 → Except FrameFault (List Char)
  | [] => .ok []
  | b :: l =>
    if b < 0x80 then do
      let s ← decodeFrom (position + 1) l
      return Char.ofNat b.toNat :: s
    else
      match lead? b with
      | none => .error (.invalidText 1 position)
      | some lead =>
        match h : follow lead.share 1 lead.follow lead.least lead.most l with
        | .cut => .error (.unfinishedText position)
        | .illFormed n => .error (.invalidText n position)
        | .complete code rest => do
          have := length_of_follow h
          let s ← decodeFrom (position + 1 + lead.follow) rest
          return Char.ofNat code :: s
termination_by l => l.length
decreasing_by
  · simp
  · simp only [List.length_cons]
    omega

def decode (l : List UInt8) : Except FrameFault (List Char) := decodeFrom 0 l

end MeshNumbering.Utf8
