import Reactors.Json.Reader
import Reactors.Json.Writer
import Reactors.Proofs.JsonNumbers

/-!
# The tokens of written documents

A written document is cut into the tokens it was written from, whether it stands on one line or
on several: blanks are passed over, strings end at their closing quotes with all escapes
undone, and words end where a mark or a blank follows.

## Main definitions

* `Json.keptScalar` — what is left of a scalar that is written and read.
* `Json.tokensOf` — the tokens of a document.

## Main results

* `Json.exists_pieces` — strings are read as they were written.
* `Json.tokens_compact`, `Json.tokens_pretty` — the tokens of a written document.
-/

namespace Reactors
namespace Json

/-! ### Strings -/

theorem scanString_plain {c : Char} (hquote : c ≠ '"') (hslash : c ≠ '\\') (hspace : ¬c < ' ')
    (r : List Char) :
    scanString (c :: r) = (scanString r).map fun (ps, rest) => (.char c :: ps, rest) := by
  rw [scanString.eq_5 c r hquote (fun _ _ _ _ _ hc _ => hslash hc) (fun _ _ hc _ => hslash hc),
    if_neg hspace]

theorem scanString_short {c e : Char} (he : shortEscape? c = some e) (r : List Char) :
    scanString ('\\' :: c :: r) = (scanString r).map fun (ps, rest) => (.char e :: ps, rest) := by
  have hc : c ≠ 'u' := by
    rintro rfl
    cases he
  rw [scanString.eq_4 c r (fun _ _ _ _ _ hu _ => hc hu), he]

/-- Two hexadecimal digits number a control character. -/
theorem hex_control : ∀ n < 32,
    ['0', '0', Nat.digitChar (n / 16), Nat.digitChar (n % 16)].all Text.isHexDigit = true ∧
      Text.valueOfDigits 16 ['0', '0', Nat.digitChar (n / 16), Nat.digitChar (n % 16)] = n := by
  decide

theorem scanString_control {n : ℕ} (hn : n < 32) (r : List Char) :
    scanString
        ('\\' :: 'u' :: '0' :: '0' :: Nat.digitChar (n / 16) :: Nat.digitChar (n % 16) :: r) =
      (scanString r).map fun (ps, rest) => (.unit n :: ps, rest) := by
  obtain ⟨hdigits, hvalue⟩ := hex_control n hn
  rw [scanString.eq_3, if_pos hdigits, hvalue]

/-- A unit below the surrogates is a character by itself. -/
theorem assemble_unit {n : ℕ} (hn : n < 0xD800) (ps : List Piece) :
    assemble (.unit n :: ps) = (assemble ps).map (Char.ofNat n :: ·) := by
  have hhigh : isHighSurrogate n = false := by simp [isHighSurrogate, Nat.not_le.2 hn]
  have hlow : isLowSurrogate n = false := by
    have hlt : n < 0xDC00 := by omega
    simp [isLowSurrogate, Nat.not_le.2 hlt]
  cases ps with
  | nil => simp [assemble, hhigh, hlow]
  | cons p ps =>
    cases p with
    | char c => simp [assemble, hhigh, hlow]
    | unit m => simp [assemble, hhigh, hlow]

/-- A character is written as one piece, which stands for it. -/
theorem exists_piece (c : Char) :
    ∃ p, (∀ r, scanString (escapeChar c ++ r) =
        (scanString r).map fun (ps, rest) => (p :: ps, rest)) ∧
      ∀ ps, assemble (p :: ps) = (assemble ps).map (c :: ·) := by
  rw [escapeChar]
  split_ifs with hquote hslash hback hform hline hreturn htab hspace
  · exact ⟨.char c, fun r => scanString_short (by rw [hquote]; rfl) r, fun ps => rfl⟩
  · exact ⟨.char c, fun r => scanString_short (by rw [hslash]; rfl) r, fun ps => rfl⟩
  · exact ⟨.char c, fun r => scanString_short (hback ▸ rfl) r, fun ps => rfl⟩
  · exact ⟨.char c, fun r => scanString_short (hform ▸ rfl) r, fun ps => rfl⟩
  · exact ⟨.char c, fun r => scanString_short (hline ▸ rfl) r, fun ps => rfl⟩
  · exact ⟨.char c, fun r => scanString_short (hreturn ▸ rfl) r, fun ps => rfl⟩
  · exact ⟨.char c, fun r => scanString_short (htab ▸ rfl) r, fun ps => rfl⟩
  · have hn : c.toNat < 32 := by simpa [Char.lt_def, UInt32.lt_iff_toNat_lt] using hspace
    refine ⟨.unit c.toNat, fun r => scanString_control hn r, fun ps => ?_⟩
    rw [assemble_unit (Nat.lt_trans hn (by decide)), Char.ofNat_toNat]
  · exact ⟨.char c, fun r => scanString_plain hquote hslash hspace r, fun ps => rfl⟩

/-- **A written string is read as it was.** -/
theorem exists_pieces (s : List Char) :
    ∃ ps, (∀ r, scanString (s.flatMap escapeChar ++ '"' :: r) = some (ps, r)) ∧
      assemble ps = some s := by
  induction s with
  | nil => exact ⟨[], fun r => scanString.eq_2 r, rfl⟩
  | cons c s ih =>
    obtain ⟨ps, hscan, hassemble⟩ := ih
    obtain ⟨p, hp, hc⟩ := exists_piece c
    refine ⟨p :: ps, fun r => ?_, ?_⟩
    · rw [List.flatMap_cons, List.append_assoc, hp, hscan]
      rfl
    · rw [hc, hassemble]
      rfl

/-! ### Single tokens -/

theorem tokens_space {c : Char} (hc : isSpace c = true) (r : List Char) :
    tokens (c :: r) = tokens r := by
  rw [tokens, if_pos hc]

theorem tokens_mark {c : Char} {t : Token} (ht : mark? c = some t) (hc : isSpace c = false)
    (r : List Char) : tokens (c :: r) = t :: tokens r := by
  rw [tokens, if_neg (by simp [hc]), ht]

theorem tokens_writeString (s : String) (r : List Char) :
    tokens (writeString s ++ r) = .text (some s) :: tokens r := by
  obtain ⟨ps, hscan, hassemble⟩ := exists_pieces s.toList
  have htext : writeString s ++ r = '"' :: (s.toList.flatMap escapeChar ++ '"' :: r) := by
    simp [writeString]
  have hmark : mark? '"' = none := rfl
  rw [htext, tokens, if_neg (by decide), hmark]
  dsimp only
  rw [if_pos rfl]
  split
  · next hfound =>
    rw [hscan] at hfound
    obtain ⟨rfl, rfl⟩ := Prod.mk.inj (Option.some.inj hfound)
    rw [hassemble, Option.map_some, String.ofList_toList]
  · next hfound =>
    rw [hscan] at hfound
    cases hfound

theorem isSpace_of_isWordChar {c : Char} (hc : isWordChar c = true) : isSpace c = false := by
  by_contra hspace
  simp only [isSpace, Bool.not_eq_false, Bool.or_eq_true, beq_iff_eq] at hspace
  rcases hspace with ((rfl | rfl) | rfl) | rfl <;> cases hc

theorem mark?_of_isWordChar {c : Char} (hc : isWordChar c = true) : mark? c = none := by
  unfold mark?
  split <;> first | rfl | cases hc

/-- A word ends where no character of words follows. -/
theorem tokens_word {w r : List Char} {d : Document} (hword : word? w = some d)
    (hchars : ∀ c ∈ w, isWordChar c = true) (hend : ∀ c ∈ r.head?, isWordChar c = false) :
    tokens (w ++ r) = .scalar d :: tokens r := by
  cases w with
  | nil => cases hword
  | cons c w =>
    have hc := hchars c List.mem_cons_self
    have hquote : c ≠ '"' := by
      rintro rfl
      cases hc
    have hrest : ∀ x ∈ w, isWordChar x = true := fun x hx => hchars x (List.mem_cons_of_mem c hx)
    have htake : r.takeWhile isWordChar = [] ∧ r.dropWhile isWordChar = r := by
      cases r with
      | nil => exact ⟨rfl, rfl⟩
      | cons x r => simp [hend x rfl]
    rw [List.cons_append, tokens, if_neg (by simp [isSpace_of_isWordChar hc]),
      mark?_of_isWordChar hc]
    dsimp only
    rw [if_neg hquote, if_pos hc, List.takeWhile_append_of_pos hrest,
      List.dropWhile_append_of_pos hrest, htake.1, htake.2, List.append_nil, hword]

/-! ### Scalars -/

/-- What is left of a scalar that is written and read; what is no scalar is written as null. -/
def keptScalar : Document → Document
  | .bool b => .bool b
  | .integer n => if (Decimal.nearestInt n).isFinite then .integer n else .illegible
  | .float x => if x.isFinite then .float x else .null
  | .text s => .text s
  | _ => .null

/-- The token of a written scalar. -/
def scalarToken : Document → Token
  | .text s => .text (some s)
  | d => .scalar (keptScalar d)

theorem tokens_number {w r : List Char} {d : Document} (h : number? w = some d)
    (hend : ∀ c ∈ r.head?, isWordChar c = false) : tokens (w ++ r) = .scalar d :: tokens r :=
  tokens_word (word?_of_number? h) (isWordChar_of_number? h) hend

theorem tokens_writeScalar (d : Document) {r : List Char}
    (hend : ∀ c ∈ r.head?, isWordChar c = false) :
    tokens (writeScalar d ++ r) = scalarToken d :: tokens r := by
  have hnull : tokens (['n', 'u', 'l', 'l'] ++ r) = .scalar .null :: tokens r :=
    tokens_word rfl (List.all_eq_true.1 rfl) hend
  cases d with
  | null => exact hnull
  | bool b =>
    cases b with
    | true => exact tokens_word rfl (List.all_eq_true.1 rfl) hend
    | false => exact tokens_word rfl (List.all_eq_true.1 rfl) hend
  | integer n => exact tokens_number (number?_integer n) hend
  | float x =>
    rw [writeScalar, scalarToken, keptScalar]
    · split_ifs with hx
      · exact tokens_number (number?_stored hx) hend
      · exact hnull
    · exact fun s hs => by cases hs
  | text s => exact tokens_writeString s r
  | list ds => exact hnull
  | table es => exact hnull
  | illegible => exact hnull
  | broken => exact hnull

/-! ### Documents -/

mutual

/-- The tokens of a document. -/
def tokensOf : Document → List Token
  | .list [] => [.openList, .closeList]
  | .list (d :: ds) => .openList :: (tokensOf d ++ tokensOfItems ds)
  | .table [] => [.openTable, .closeTable]
  | .table ((k, d) :: es) =>
    .openTable :: .text (some (k.getD "")) :: .colon :: (tokensOf d ++ tokensOfEntries es)
  | d => [scalarToken d]

/-- The tokens of further items of a list, and of its end. -/
def tokensOfItems : List Document → List Token
  | [] => [.closeList]
  | d :: ds => .comma :: (tokensOf d ++ tokensOfItems ds)

/-- The tokens of further entries of a table, and of its end. -/
def tokensOfEntries : List Entry → List Token
  | [] => [.closeTable]
  | (k, d) :: es =>
    .comma :: .text (some (k.getD "")) :: .colon :: (tokensOf d ++ tokensOfEntries es)

end

/-- The name of an entry and the colon behind it. -/
theorem tokens_writeName (k : Option String) (r : List Char) :
    tokens (writeName k ++ ':' :: r) = .text (some (k.getD "")) :: .colon :: tokens r := by
  rw [writeName, tokens_writeString, tokens_mark rfl rfl]

/-- What follows a value ends a word. -/
theorem end_writeItems (ds : List Document) (r : List Char) :
    ∀ c ∈ (writeItems ds ++ r).head?, isWordChar c = false := by
  cases ds <;> exact fun c hc => by cases hc; rfl

theorem end_writeEntries (es : List Entry) (r : List Char) :
    ∀ c ∈ (writeEntries es ++ r).head?, isWordChar c = false := by
  cases es <;> exact fun c hc => by cases hc; rfl

mutual

/-- A document without blanks is cut into its tokens. -/
theorem tokens_write (d : Document) (r : List Char)
    (hend : ∀ c ∈ r.head?, isWordChar c = false) :
    tokens (write d ++ r) = tokensOf d ++ tokens r := by
  match d with
  | .list [] =>
    rw [write, tokensOf, List.cons_append, List.singleton_append, tokens_mark rfl rfl,
      tokens_mark rfl rfl]
    rfl
  | .list (d :: ds) =>
    rw [write, tokensOf, List.cons_append, List.append_assoc, tokens_mark rfl rfl,
      tokens_write d _ (end_writeItems ds r), tokens_writeItems ds r, List.cons_append,
      List.append_assoc]
  | .table [] =>
    rw [write, tokensOf, List.cons_append, List.singleton_append, tokens_mark rfl rfl,
      tokens_mark rfl rfl]
    rfl
  | .table ((k, d) :: es) =>
    rw [write, tokensOf, List.cons_append, List.append_assoc, List.cons_append,
      List.append_assoc, tokens_mark rfl rfl, tokens_writeName,
      tokens_write d _ (end_writeEntries es r), tokens_writeEntries es r, List.cons_append,
      List.cons_append, List.cons_append, List.append_assoc]
  | .null => exact tokens_writeScalar .null hend
  | .bool b => exact tokens_writeScalar (.bool b) hend
  | .integer n => exact tokens_writeScalar (.integer n) hend
  | .float x => exact tokens_writeScalar (.float x) hend
  | .text s => exact tokens_writeScalar (.text s) hend
  | .illegible => exact tokens_writeScalar .illegible hend
  | .broken => exact tokens_writeScalar .broken hend

theorem tokens_writeItems (ds : List Document) (r : List Char) :
    tokens (writeItems ds ++ r) = tokensOfItems ds ++ tokens r := by
  match ds with
  | [] => exact tokens_mark rfl rfl r
  | d :: ds =>
    rw [writeItems, tokensOfItems, List.cons_append, List.append_assoc, tokens_mark rfl rfl,
      tokens_write d _ (end_writeItems ds r), tokens_writeItems ds r, List.cons_append,
      List.append_assoc]

theorem tokens_writeEntries (es : List Entry) (r : List Char) :
    tokens (writeEntries es ++ r) = tokensOfEntries es ++ tokens r := by
  match es with
  | [] => exact tokens_mark rfl rfl r
  | (k, d) :: es =>
    rw [writeEntries, tokensOfEntries, List.cons_append, List.append_assoc, List.cons_append,
      List.append_assoc, tokens_mark rfl rfl, tokens_writeName,
      tokens_write d _ (end_writeEntries es r), tokens_writeEntries es r, List.cons_append,
      List.cons_append, List.cons_append, List.append_assoc]

end

/-! ### Documents on lines -/

theorem tokens_newLine (level : ℕ) (r : List Char) : tokens (newLine level ++ r) = tokens r := by
  rw [newLine, List.cons_append, tokens_space rfl]
  induction 2 * level with
  | zero => rfl
  | succ n ih => rw [List.replicate_succ, List.cons_append, tokens_space rfl, ih]

theorem end_writeItemLines (level : ℕ) (ds : List Document) (r : List Char) :
    ∀ c ∈ (writeItemLines level ds ++ r).head?, isWordChar c = false := by
  cases ds <;> exact fun c hc => by cases hc; rfl

theorem end_writeEntryLines (level : ℕ) (es : List Entry) (r : List Char) :
    ∀ c ∈ (writeEntryLines level es ++ r).head?, isWordChar c = false := by
  cases es <;> exact fun c hc => by cases hc; rfl

mutual

/-- A document on lines is cut into the same tokens. -/
theorem tokens_writeLines (level : ℕ) (d : Document) (r : List Char)
    (hend : ∀ c ∈ r.head?, isWordChar c = false) :
    tokens (writeLines level d ++ r) = tokensOf d ++ tokens r := by
  match d with
  | .list [] =>
    rw [writeLines, tokensOf, List.cons_append, List.singleton_append, tokens_mark rfl rfl,
      tokens_mark rfl rfl]
    rfl
  | .list (d :: ds) =>
    rw [writeLines, tokensOf, List.cons_append, List.append_assoc, List.append_assoc,
      tokens_mark rfl rfl, tokens_newLine,
      tokens_writeLines (level + 1) d _ (end_writeItemLines level ds r),
      tokens_writeItemLines level ds r, List.cons_append, List.append_assoc]
  | .table [] =>
    rw [writeLines, tokensOf, List.cons_append, List.singleton_append, tokens_mark rfl rfl,
      tokens_mark rfl rfl]
    rfl
  | .table ((k, d) :: es) =>
    rw [writeLines, tokensOf, List.cons_append, List.append_assoc, List.append_assoc,
      List.cons_append, List.cons_append, List.append_assoc, tokens_mark rfl rfl, tokens_newLine,
      tokens_writeName, tokens_space rfl,
      tokens_writeLines (level + 1) d _ (end_writeEntryLines level es r),
      tokens_writeEntryLines level es r, List.cons_append, List.cons_append, List.cons_append,
      List.append_assoc]
  | .null => exact tokens_writeScalar .null hend
  | .bool b => exact tokens_writeScalar (.bool b) hend
  | .integer n => exact tokens_writeScalar (.integer n) hend
  | .float x => exact tokens_writeScalar (.float x) hend
  | .text s => exact tokens_writeScalar (.text s) hend
  | .illegible => exact tokens_writeScalar .illegible hend
  | .broken => exact tokens_writeScalar .broken hend

theorem tokens_writeItemLines (level : ℕ) (ds : List Document) (r : List Char) :
    tokens (writeItemLines level ds ++ r) = tokensOfItems ds ++ tokens r := by
  match ds with
  | [] =>
    rw [writeItemLines, List.append_assoc, tokens_newLine]
    exact tokens_mark rfl rfl r
  | d :: ds =>
    rw [writeItemLines, tokensOfItems, List.cons_append, List.append_assoc, List.append_assoc,
      tokens_mark rfl rfl, tokens_newLine,
      tokens_writeLines (level + 1) d _ (end_writeItemLines level ds r),
      tokens_writeItemLines level ds r, List.cons_append, List.append_assoc]

theorem tokens_writeEntryLines (level : ℕ) (es : List Entry) (r : List Char) :
    tokens (writeEntryLines level es ++ r) = tokensOfEntries es ++ tokens r := by
  match es with
  | [] =>
    rw [writeEntryLines, List.append_assoc, tokens_newLine]
    exact tokens_mark rfl rfl r
  | (k, d) :: es =>
    rw [writeEntryLines, tokensOfEntries, List.cons_append, List.append_assoc,
      List.append_assoc, List.cons_append, List.cons_append, List.append_assoc,
      tokens_mark rfl rfl, tokens_newLine, tokens_writeName, tokens_space rfl,
      tokens_writeLines (level + 1) d _ (end_writeEntryLines level es r),
      tokens_writeEntryLines level es r, List.cons_append, List.cons_append, List.cons_append,
      List.append_assoc]

end

/-- **A written document is cut into its tokens.** -/
theorem tokens_compact (d : Document) : tokens (compact d).toList = tokensOf d := by
  have hcut := tokens_write d [] fun c hc => by cases hc
  rw [List.append_nil] at hcut
  rw [compact, String.toList_ofList, hcut, tokens, List.append_nil]

theorem tokens_pretty (d : Document) : tokens (pretty d).toList = tokensOf d := by
  have hcut := tokens_writeLines 0 d [] fun c hc => by cases hc
  rw [List.append_nil] at hcut
  rw [pretty, String.toList_ofList, hcut, tokens, List.append_nil]

end Json
end Reactors
