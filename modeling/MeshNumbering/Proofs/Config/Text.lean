import Mathlib.Data.List.Nodup
import MeshNumbering.Config.Text
import MeshNumbering.Proofs.Json.Text
import MeshNumbering.Proofs.Strategy

/-! Configurations without doubles come back from the text they are written as. The text may have
its fields in any order, and a limit that is not set need not be in it. -/

namespace MeshNumbering

namespace Json.Value
open Quoted

def IsRead (v : Value) (tokens : List Token) : Prop :=
  ∀ fuel rest, tokens.length ≤ fuel → read fuel (tokens ++ rest) = some (v, rest)

def Spells (w : List Char) (v : Value) : Prop := ∃ tokens, Token.Spells w tokens ∧ v.IsRead tokens

theorem ofText?_of_spells {w : List Char} {v : Value} (h : Spells w v) : ofText? w = some v := by
  obtain ⟨tokens, hw, hv⟩ := h
  have hscan := hw [] nofun
  rw [List.append_nil, Token.scan, Option.map_some, List.append_nil] at hscan
  have hread := hv (2 * tokens.length + 2) [] (by omega)
  rw [List.append_nil] at hread
  unfold ofText?
  rw [hscan, Option.bind_eq_bind, Option.bind_some, hread]

theorem isRead_token {v : Value} {t : Token} (h : ∀ fuel rest, read (fuel + 1) (t :: rest) =
    some (v, rest)) : v.IsRead [t] := by
  intro fuel rest hfuel
  obtain ⟨n, rfl⟩ := Nat.exists_eq_add_one.2 (Nat.zero_lt_of_lt hfuel)
  exact h n rest

theorem spells_text (s : List Char) : Spells (write s) (.text (s.map piece)) :=
  ⟨_, Token.spells_write s, isRead_token fun _ _ => rfl⟩

theorem spells_nat (n : Nat) : Spells (Decimal.digits n) (.number (.ofNat n)) :=
  ⟨_, Token.spells_digits n, isRead_token fun _ _ => rfl⟩

theorem spells_null : Spells "null".toList .null :=
  ⟨_, Token.spells_null, isRead_token fun _ _ => rfl⟩

theorem spells_bool (b : Bool) : Spells (if b then "true" else "false").toList (.bool b) :=
  ⟨_, Token.spells_bool b, isRead_token fun _ _ => rfl⟩

def members (f : String → Value) (names : List String) : List (List Piece × Value) :=
  names.map fun s => (s.toList.map piece, f s)

theorem named?_members (f : String → Value) (names : List String) :
    named? (members f names) = some (names.map fun s => (s, f s)) := by
  induction names with
  | nil => rfl
  | cons s names ih =>
    unfold named? members at ih ⊢
    rw [List.map_cons, List.mapM_cons, ih]
    dsimp only
    rw [decode?_map_piece]
    show some ((String.ofList s.toList, f s) :: _) = _
    rw [String.ofList_toList]
    rfl

theorem filter_named {names : List String} (hnodup : names.Nodup) (f : String → Value)
    (name : String) : ((names.map fun s => (s, f s)).filter fun m => m.1 = name) =
      if name ∈ names then [(name, f name)] else [] := by
  induction names with
  | nil => rfl
  | cons s names ih =>
    obtain ⟨hs, hnames⟩ := List.nodup_cons.1 hnodup
    rw [List.map_cons, List.filter_cons, ih hnames]
    by_cases hname : s = name
    · subst hname
      rw [if_neg hs, if_pos List.mem_cons_self]
      exact if_pos (decide_eq_true rfl)
    · simp only [hname, decide_false, Bool.false_eq_true, if_false, List.mem_cons,
        Ne.symm hname, false_or]

theorem only?_named {names : List String} (hnodup : names.Nodup) (f : String → Value)
    {name : String} (h : name ∈ names) : only? name (names.map fun s => (s, f s)) =
      some (f name) := by
  unfold only?
  rw [filter_named hnodup, if_pos h]

end Json.Value

namespace Config
open Json Value Quoted

theorem scan_member {key w l : List Char} {tokens : List Token} (h : Token.Spells w tokens)
    (hl : Ends l) : Token.scan (write key ++ ':' :: (w ++ l)) =
      (Token.scan l).map (.text (key.map piece) :: .colon :: tokens ++ ·) := by
  rw [Token.scan_write, Token.scan_mark rfl rfl, h l hl, Option.map_map, Option.map_map]
  rfl

theorem readMembers_last {v : Value} {tokens : List Token} (h : v.IsRead tokens)
    (key : List Piece) {fuel : Nat} (hfuel : tokens.length ≤ fuel) (rest : List Token) :
    readMembers (fuel + 1) (.text key :: .colon :: (tokens ++ .endObject :: rest)) =
      some ([(key, v)], rest) := by
  rw [readMembers, h fuel _ hfuel]
  rfl

theorem readMembers_more {v : Value} {tokens more : List Token} (h : v.IsRead tokens)
    (key : List Piece) {fuel : Nat} (hfuel : tokens.length ≤ fuel)
    {ms : List (List Piece × Value)} {rest : List Token}
    (hmore : readMembers fuel more = some (ms, rest)) :
    readMembers (fuel + 1) (.text key :: .colon :: (tokens ++ .comma :: more)) =
      some ((key, v) :: ms, rest) := by
  rw [readMembers, h fuel _ hfuel]
  show (readMembers fuel more).bind _ = _
  rw [hmore]
  rfl

theorem exists_tokens_separate {f : String → Value} {l : List (String × List Char)} (hne : l ≠ [])
    (h : ∀ m ∈ l, Spells m.2 (f m.1)) : ∃ key tokens,
      (∀ rest, Token.scan (separate (l.map fun m => write m.1.toList ++ ':' :: m.2) ++
        '\x7d' :: rest) = (Token.scan rest).map (.text key :: tokens ++ ·)) ∧
      ∀ fuel rest, tokens.length + 1 ≤ fuel → readMembers fuel (.text key :: tokens ++ rest) =
        some (members f (l.map Prod.fst), rest) := by
  induction l with
  | nil => exact absurd rfl hne
  | cons m l ih =>
    obtain ⟨⟨tokens, hspells, hread⟩, hl⟩ := List.forall_mem_cons.1 h
    cases l with
    | nil =>
      refine ⟨m.1.toList.map piece, .colon :: tokens ++ [.endObject], fun rest => ?_,
        fun fuel rest hfuel => ?_⟩
      · show Token.scan ((write m.1.toList ++ ':' :: m.2) ++ '\x7d' :: rest) = _
        rw [List.append_assoc, List.cons_append, scan_member hspells (by simp [Ends]),
          Token.scan_mark rfl rfl, Option.map_map]
        apply Option.map_congr
        simp
      · obtain ⟨fuel, rfl⟩ := Nat.exists_eq_add_one.2 (Nat.zero_lt_of_lt hfuel)
        have hshort : tokens.length ≤ fuel := by
          simp only [List.length_append, List.length_cons] at hfuel
          omega
        have hlast := readMembers_last hread (m.1.toList.map piece) hshort rest
        simpa [members] using hlast
    | cons m' l =>
      obtain ⟨key, tokens', hscan, hreads⟩ := ih (List.cons_ne_nil m' l) hl
      refine ⟨m.1.toList.map piece, .colon :: tokens ++ .comma :: .text key :: tokens',
        fun rest => ?_, fun fuel rest hfuel => ?_⟩
      · show Token.scan (((write m.1.toList ++ ':' :: m.2) ++ ',' :: separate _) ++
          '\x7d' :: rest) = _
        rw [List.append_assoc, List.append_assoc, List.cons_append, List.cons_append,
          scan_member hspells (by simp [Ends]), Token.scan_mark rfl rfl, hscan, Option.map_map,
          Option.map_map]
        apply Option.map_congr
        simp
      · obtain ⟨fuel, rfl⟩ := Nat.exists_eq_add_one.2 (Nat.zero_lt_of_lt hfuel)
        simp only [List.length_append, List.length_cons] at hfuel
        have hshort : tokens.length ≤ fuel := by omega
        have hmore := readMembers_more hread (m.1.toList.map piece) hshort
          (hreads fuel rest (by omega))
        simpa [members] using hmore

theorem spells_writeObject {f : String → Value} {l : List (String × List Char)} (hne : l ≠ [])
    (h : ∀ m ∈ l, Spells m.2 (f m.1)) :
    Spells (writeObject l) (.object (members f (l.map Prod.fst))) := by
  obtain ⟨key, tokens, hscan, hread⟩ := exists_tokens_separate hne h
  refine ⟨.beginObject :: .text key :: tokens, fun w _ => ?_, fun fuel rest hfuel => ?_⟩
  · show Token.scan (('\x7b' :: separate _ ++ ['\x7d']) ++ w) = _
    rw [List.append_assoc, List.cons_append, Token.scan_mark rfl rfl, List.singleton_append, hscan,
      Option.map_map]
    rfl
  · obtain ⟨fuel, rfl⟩ := Nat.exists_eq_add_one.2 (Nat.zero_lt_of_lt hfuel)
    have hmembers := hread fuel rest (Nat.le_of_succ_le_succ hfuel)
    rw [List.cons_append] at hmembers
    rw [List.cons_append, List.cons_append, Value.read, hmembers]
    · rfl
    · nofun

end Config

/-! What the texts of the fields spell. Doubles are left out. -/

open Json Quoted

def ChareCount.spelled : ChareCount → Value
  | fixed n => .object (Value.members (fun _ => .number (.ofNat n)) ["fixed"])
  | virtualization _ => .null

def Algorithm.spelled (a : Algorithm) : Value :=
  .object (Value.members (fun _ => .text (a.kind.toList.map piece)) ["kind"])

namespace Config

def spelledLimit : Option Nat → Value
  | none => .null
  | some n => .number (.ofNat n)

def spelled (c : Config) (name : String) : Value :=
  if name = "input_mesh" then .text (c.inputMesh.toList.map piece)
  else if name = "chares" then c.chares.spelled
  else if name = "algorithm" then c.algorithm.spelled
  else if name = "feedback" then .bool c.feedback
  else spelledLimit c.frameLimit

structure Whole (c : Config) : Prop where
  chares_eq : ∃ n < wordSize, c.chares = .fixed n
  isPlain : c.algorithm.IsPlain
  limit_lt : ∀ limit ∈ c.frameLimit, limit < wordSize

variable {c : Config}

theorem Whole.spells_chares (h : c.Whole) :
    Value.Spells (writeChares c.chares) c.chares.spelled := by
  obtain ⟨n, -, hn⟩ := h.chares_eq
  rw [hn]
  exact spells_writeObject (List.cons_ne_nil _ _)
    (List.forall_mem_singleton.2 (Value.spells_nat n))

theorem Whole.spells_algorithm (h : c.Whole) :
    Value.Spells (writeAlgorithm c.algorithm) c.algorithm.spelled := by
  rcases h.isPlain with ha | ha
  all_goals
    rw [ha]
    exact spells_writeObject (List.cons_ne_nil _ _)
      (List.forall_mem_singleton.2 (Value.spells_text _))

theorem spells_writeLimit (limit : Option Nat) :
    Value.Spells (writeLimit limit) (spelledLimit limit) := by
  cases limit with
  | none => exact Value.spells_null
  | some n => exact Value.spells_nat n

theorem Whole.spells_fields (h : c.Whole) : ∀ m ∈ c.fields, Value.Spells m.2 (c.spelled m.1) := by
  unfold fields
  simp only [List.forall_mem_cons]
  refine ⟨Value.spells_text _, h.spells_chares, h.spells_algorithm, Value.spells_bool _,
    spells_writeLimit _, ?_⟩
  nofun

theorem Whole.chares_spelled (h : c.Whole) :
    ChareCount.ofValue? c.chares.spelled = some c.chares := by
  obtain ⟨n, hlt, hn⟩ := h.chares_eq
  have hvalue : Value.nat? (.number (.ofNat n)) = some n := Numeral.nat?_ofNat hlt
  rw [hn]
  show (Value.nat? (.number (.ofNat n))).map _ = _
  rw [hvalue]
  rfl

theorem Whole.algorithm_spelled (h : c.Whole) :
    Algorithm.ofValue? c.algorithm.spelled = some c.algorithm := by
  rcases h.isPlain with ha | ha
  all_goals
    rw [ha]
    rfl

theorem Whole.limit_spelled (h : c.Whole) :
    limit? (spelledLimit c.frameLimit) = some c.frameLimit := by
  cases hlimit : c.frameLimit with
  | none => rfl
  | some n =>
    have hvalue : Value.nat? (.number (.ofNat n)) = some n :=
      Numeral.nat?_ofNat (h.limit_lt n hlimit)
    show (Value.nat? (.number (.ofNat n))).map _ = _
    rw [hvalue]
    rfl

theorem Whole.ofValues?_spelled (h : c.Whole) {limit : Option Value}
    (hlimit : limit = some (spelledLimit c.frameLimit) ∨ limit = none ∧ c.frameLimit = none) :
    ofValues? (c.spelled "input_mesh") (c.spelled "chares") (c.spelled "algorithm")
      (c.spelled "feedback") limit = some c := by
  have hpath : (c.spelled "input_mesh").text? = some c.inputMesh := by
    show (decode? (c.inputMesh.toList.map piece)).map String.ofList = _
    rw [decode?_map_piece, Option.map_some, String.ofList_toList]
  have hframe : (limit.map limit?).getD (some none) = some c.frameLimit := by
    rcases hlimit with rfl | ⟨rfl, hnone⟩
    · exact h.limit_spelled
    · exact congrArg some hnone.symm
  unfold ofValues?
  rw [hpath, show c.spelled "chares" = c.chares.spelled from rfl, h.chares_spelled,
    show c.spelled "algorithm" = c.algorithm.spelled from rfl, h.algorithm_spelled, hframe]
  rfl

theorem Whole.ofMembers?_spelled (h : c.Whole) {names : List String} (hnodup : names.Nodup)
    (hall : ∀ s ∈ ["input_mesh", "chares", "algorithm", "feedback"], s ∈ names)
    (hlimit : "wire_limit" ∈ names ∨ c.frameLimit = none) :
    ofMembers? (names.map fun s => (s, c.spelled s)) = some c := by
  have honly : ∀ s ∈ ["input_mesh", "chares", "algorithm", "feedback"],
      Value.only? s (names.map fun s => (s, c.spelled s)) = some (c.spelled s) :=
    fun s hs => Value.only?_named hnodup c.spelled (hall s hs)
  simp only [List.forall_mem_cons] at honly
  obtain ⟨hpath, hchares, halgorithm, hfeedback, -⟩ := honly
  unfold ofMembers?
  rw [hpath, hchares, halgorithm, hfeedback, Value.filter_named hnodup]
  by_cases hmem : "wire_limit" ∈ names
  · rw [if_pos hmem]
    exact h.ofValues?_spelled (.inl rfl)
  · rw [if_neg hmem]
    exact h.ofValues?_spelled (.inr ⟨rfl, hlimit.resolve_left hmem⟩)

theorem Whole.ofText?_writeObject (h : c.Whole) {l : List (String × List Char)}
    (hsub : l ⊆ c.fields) (hnodup : (l.map Prod.fst).Nodup)
    (hall : ∀ s ∈ ["input_mesh", "chares", "algorithm", "feedback"], s ∈ l.map Prod.fst)
    (hlimit : "wire_limit" ∈ l.map Prod.fst ∨ c.frameLimit = none) :
    ofText? (String.ofList (writeObject l)) = some c := by
  have hne : l ≠ [] := by
    rintro rfl
    cases hall "input_mesh" (by decide)
  have hspells := spells_writeObject hne fun m hm => h.spells_fields m (hsub hm)
  unfold ofText?
  rw [String.toList_ofList, Value.ofText?_of_spells hspells, Option.bind_some]
  show (Value.named? _).bind _ = _
  rw [Value.named?_members, Option.bind_some]
  exact h.ofMembers?_spelled hnodup hall hlimit

/-- A configuration without doubles comes back from its text, with the fields in any order and, when
no limit is set, also without that field. The path may have any characters. -/
theorem Whole.comes_back (h : c.Whole) : ofText? c.toText = some c ∧
    (∀ l, l.Perm c.fields → ofText? (String.ofList (writeObject l)) = some c) ∧
    (c.frameLimit = none → ∀ l, l.Perm (c.fields.filter fun m => m.1 ≠ "wire_limit") →
      ofText? (String.ofList (writeObject l)) = some c) := by
  have hnames : (c.fields.map Prod.fst) =
      ["input_mesh", "chares", "algorithm", "feedback", "wire_limit"] := rfl
  have horder : ∀ l, l.Perm c.fields → ofText? (String.ofList (writeObject l)) = some c := by
    intro l hl
    have hperm := hl.map Prod.fst
    rw [hnames] at hperm
    refine h.ofText?_writeObject hl.subset (hperm.nodup_iff.2 (by decide)) ?_ ?_
    · intro s hs
      exact hperm.mem_iff.2 (List.mem_append_left ["wire_limit"] hs)
    · exact .inl (hperm.mem_iff.2 (by decide))
  refine ⟨horder c.fields (.refl _), horder, fun hnone l hl => ?_⟩
  have hperm := hl.map Prod.fst
  have hnames' : (c.fields.filter fun m => m.1 ≠ "wire_limit").map Prod.fst =
      ["input_mesh", "chares", "algorithm", "feedback"] := rfl
  rw [hnames'] at hperm
  exact h.ofText?_writeObject (fun m hm => List.mem_of_mem_filter (hl.subset hm))
    (hperm.nodup_iff.2 (by decide)) (fun s hs => hperm.mem_iff.2 hs) (.inr hnone)

theorem awkward_path_comes_back :
    let c : Config := ⟨"\"\\\n\x01é😀", .fixed (2 ^ 64 - 1), .cyclic, true, none⟩
    ofText? c.toText = some c ∧ ofText? (String.ofList (writeObject c.fields.reverse)) = some c ∧
      ofText? (String.ofList
        (writeObject (c.fields.filter fun m => m.1 ≠ "wire_limit").reverse)) = some c := by
  intro c
  have h : c.Whole := ⟨⟨2 ^ 64 - 1, by decide, rfl⟩, .inr rfl, nofun⟩
  obtain ⟨htext, horder, hshort⟩ := h.comes_back
  exact ⟨htext, horder _ (List.reverse_perm _), hshort rfl _ (List.reverse_perm _)⟩

end Config
end MeshNumbering
