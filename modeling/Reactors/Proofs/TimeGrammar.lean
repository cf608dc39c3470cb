import Reactors.Proofs.SignedDigits
import Reactors.Proofs.StoredValues

/-!
# The grammar of times

A text is read as a time in steps that look at the text from the front to the back: the blanks
around it are dropped, the longest beginning of a sign and digits is cut off and read as a number,
and what is left is looked up among the spellings of the units.  Said without the steps, a text has
two parts, a sign with digits and a word in lower case, and these alone decide what it is read as.
Blanks around the parts and the case of the letters belong to neither part, so they do not matter.

## Main definitions

* `TimeValue.HasParts` — the two parts of a text.
* `TimeValue.ReadsAs` — the grammar: what a text with these parts is read as.

## Main results

* `TimeUnit.ofSpelling?_eq_some_iff` — no word spells two units.
* `TimeValue.read_eq_iff_readsAs` — the reader follows the grammar.
* `TimeValue.reading_follows_grammar` — the grammar, and what does not matter.
-/

namespace Reactors

namespace Text

/-! ### Letters -/

theorem toNat_toLower (c : Char) :
    c.toLower.toNat = if 65 ≤ c.toNat ∧ c.toNat ≤ 90 then c.toNat + 32 else c.toNat := by
  have hupper : (c.val ≥ 'A'.val ∧ c.val ≤ 'Z'.val) ↔ 65 ≤ c.toNat ∧ c.toNat ≤ 90 := by
    simp only [ge_iff_le, UInt32.le_iff_toNat_le]
    rfl
  by_cases h : c.val ≥ 'A'.val ∧ c.val ≤ 'Z'.val
  · have hrange : c.val.toNat ≤ 90 := (hupper.1 h).2
    have hsum : (c.val + 32).toNat = c.val.toNat + 32 := by
      rw [UInt32.toNat_add]
      exact Nat.mod_eq_of_lt (Nat.lt_of_le_of_lt (Nat.add_le_add_right hrange 32) (by decide))
    have hlower : c.toLower.val = c.val + 32 := congrArg Char.val (dif_pos h)
    rw [if_pos (hupper.1 h)]
    exact (congrArg UInt32.toNat hlower).trans hsum
  · have hlower : c.toLower = c := dif_neg h
    rw [hlower, if_neg (mt hupper.2 h)]

/-- Lower case makes no blank and removes none. -/
theorem isBlank_toLower (c : Char) : isBlank c.toLower = isBlank c := by
  have hcode := toNat_toLower c
  split_ifs at hcode with h
  · rw [isBlank_of_graphic (by omega) (by omega), isBlank_of_graphic (by omega) (by omega)]
  · rw [Char.toNat_inj.1 hcode]

theorem goesOn_toLower {d : List Char} {c : Char} : GoesOn d c.toLower ↔ GoesOn d c := by
  have hsign (sign : Char) (hsign : sign.toNat < 65) : c.toLower = sign ↔ c = sign := by
    rw [← Char.toNat_inj, ← Char.toNat_inj, toNat_toLower]
    split_ifs <;> omega
  have hdigit : isDigit c.toLower = true ↔ isDigit c = true := by
    rw [isDigit_iff, isDigit_iff, toNat_toLower]
    split_ifs <;> omega
  rw [GoesOn, GoesOn, hdigit, hsign '+' (by decide), hsign '-' (by decide)]

end Text

/-! ### Units -/

namespace TimeUnit

variable {s s' : List Char} {w : String} {u : TimeUnit}

/-- Lower case is that of ASCII. -/
theorem lower_eq_toLower (c : Char) : lower c = c.toLower := by
  have hupper : ('A' ≤ c ∧ c ≤ 'Z') ↔ 65 ≤ c.toNat ∧ c.toNat ≤ 90 := by
    simp only [Char.le_def, UInt32.le_iff_toNat_le]
    rfl
  rw [← Char.toNat_inj, Text.toNat_toLower, lower]
  by_cases h : 'A' ≤ c ∧ c ≤ 'Z'
  · have hvalid : (c.toNat + 32).isValidChar := .inl (by have := hupper.1 h; omega)
    rw [if_pos h, if_pos (hupper.1 h), Char.ofNat, dif_pos hvalid]
    rfl
  · rw [if_neg h, if_neg (mt hupper.2 h)]

/-- **No word spells two units**, so the search finds the unit that a word spells. -/
theorem ofSpelling?_eq_some_iff : ofSpelling? w = some u ↔ w ∈ u.spellings := by
  have hfound : ∀ u ∈ all, ∀ w ∈ u.spellings, ofSpelling? w = some u := by decide +kernel
  constructor
  · intro h
    have hspelled := List.find?_some (p := fun u : TimeUnit => decide (w ∈ u.spellings)) h
    exact of_decide_eq_true hspelled
  · exact hfound u (by cases u <;> decide) w

theorem read_of_mem (h : word s ∈ u.spellings) : read s = .ok u := by
  rw [read, ofSpelling?_eq_some_iff.2 h]

theorem read_of_forall_notMem (h : ∀ u : TimeUnit, word s ∉ u.spellings) :
    read s = .error (.unknownUnit (word s)) := by
  cases hw : ofSpelling? (word s) with
  | none => rw [read, hw]
  | some u => exact absurd (ofSpelling?_eq_some_iff.1 hw) (h u)

/-- Only the word counts. -/
theorem read_congr (h : word s = word s') : read s = read s' := by
  rw [read, read, h]

end TimeUnit

namespace TimeValue

open Text

variable {s t d u : List Char} {w : String} {m : Int64}

/-! ### The grammar -/

/-- The parts of a text that is not blank: the sign and digits at the front, and the word behind
them without blanks around it and in lower case. -/
def HasParts (s d : List Char) (w : String) : Prop :=
  ∃ t u v, TrimsTo s t ∧ t ≠ [] ∧ SplitsInto t d u ∧ TrimsTo u v ∧
    w = String.ofList (v.map Char.toLower)

/-- **The grammar of times.**  A blank text is no time.  In any other text the sign and digits have
to be a number of 64 bits, the word has to spell a unit, and a number other than zero needs one: the
first of these that fails is what is wrong, and otherwise the text is the time with this number and
this unit. -/
inductive ReadsAs (s : List Char) : Except TimeError TimeValue → Prop where
  | empty (h : TrimsTo s []) : ReadsAs s (.error .empty)
  | invalidMagnitude {d : List Char} {w : String} (h : HasParts s d w) (hd : Unfit d) :
      ReadsAs s (.error (.invalidMagnitude (String.ofList d)))
  | unknownUnit {d : List Char} {w : String} {m : Int64} (h : HasParts s d w)
      (hd : Denotes d m.toInt) (hw : ∀ u : TimeUnit, w ∉ u.spellings) :
      ReadsAs s (.error (.unknownUnit w))
  | missingUnit {d : List Char} {w : String} {m : Int64} (h : HasParts s d w)
      (hd : Denotes d m.toInt) (hw : w ∈ TimeUnit.none.spellings) (hm : m ≠ 0) :
      ReadsAs s (.error (.missingUnit m))
  | value {d : List Char} {w : String} {m : Int64} {u : TimeUnit} (h : HasParts s d w)
      (hd : Denotes d m.toInt) (hw : w ∈ u.spellings) (hm : u = .none → m = 0) :
      ReadsAs s (.ok ⟨m, u⟩)

theorem hasParts_iff : HasParts s d w ↔
    trim s ≠ [] ∧ ∃ u, splitMagnitude (trim s) = (d, u) ∧ TimeUnit.word u = w := by
  have hlower : TimeUnit.lower = Char.toLower := funext TimeUnit.lower_eq_toLower
  constructor
  · rintro ⟨t, u, v, ht, hne, hsplit, hv, rfl⟩
    obtain rfl := trimsTo_iff.1 ht
    obtain rfl := trimsTo_iff.1 hv
    exact ⟨hne, u, splitsInto_iff.1 hsplit, by rw [TimeUnit.word, hlower]⟩
  · rintro ⟨hne, u, hsplit, rfl⟩
    exact ⟨trim s, u, trim u, trimsTo_iff.2 rfl, hne, splitsInto_iff.2 hsplit, trimsTo_iff.2 rfl,
      by rw [TimeUnit.word, hlower]⟩

variable {text text' : String}

theorem read_of_blank (h : trim text.toList = []) : read text = .error .empty := by
  rw [read, h]
  rfl

/-! ### What the parts are read as -/

namespace HasParts

/-- A text is read as its parts: the number, then the unit, then the rule on units. -/
theorem exists_read_eq (h : HasParts text.toList d w) :
    ∃ u, TimeUnit.word u = w ∧
      read text = readMagnitude d >>= fun m => TimeUnit.read u >>= checked m := by
  obtain ⟨hne, u, hsplit, rfl⟩ := hasParts_iff.1 h
  refine ⟨u, rfl, ?_⟩
  unfold read
  dsimp only
  rw [List.isEmpty_eq_false_iff.2 hne, hsplit]
  rfl

theorem read_of_unfit (h : HasParts text.toList d w) (hd : Unfit d) :
    read text = .error (.invalidMagnitude (String.ofList d)) := by
  obtain ⟨u, -, hread⟩ := h.exists_read_eq
  rw [hread, readMagnitude_of_unfit hd]
  rfl

theorem read_of_mem {unit : TimeUnit} (h : HasParts text.toList d w) (hd : Denotes d m.toInt)
    (hw : w ∈ unit.spellings) : read text = checked m unit := by
  obtain ⟨u, rfl, hread⟩ := h.exists_read_eq
  rw [hread, readMagnitude_of_denotes hd, TimeUnit.read_of_mem hw]
  rfl

theorem read_of_forall_notMem (h : HasParts text.toList d w) (hd : Denotes d m.toInt)
    (hw : ∀ unit : TimeUnit, w ∉ unit.spellings) : read text = .error (.unknownUnit w) := by
  obtain ⟨u, rfl, hread⟩ := h.exists_read_eq
  rw [hread, readMagnitude_of_denotes hd, TimeUnit.read_of_forall_notMem hw]
  rfl

/-- Texts with the same parts are read alike. -/
theorem read_congr (h : HasParts text.toList d w) (h' : HasParts text'.toList d w) :
    read text = read text' := by
  obtain ⟨u, hu, hread⟩ := h.exists_read_eq
  obtain ⟨u', hu', hread'⟩ := h'.exists_read_eq
  rw [hread, hread', TimeUnit.read_congr (hu.trans hu'.symm)]

end HasParts

theorem readsAs_read (text : String) : ReadsAs text.toList (read text) := by
  by_cases hblank : trim text.toList = []
  · rw [read_of_blank hblank]
    exact .empty (trimsTo_iff.2 hblank)
  obtain ⟨d, u, hsplit⟩ := exists_splitsInto (trim text.toList)
  have hparts : HasParts text.toList d (TimeUnit.word u) :=
    hasParts_iff.2 ⟨hblank, u, splitsInto_iff.1 hsplit, rfl⟩
  -- the number is judged first, then the unit, and the rule on units at last
  rcases exists_denotes_or_unfit hsplit.signed with ⟨m, hm⟩ | hunfit
  · by_cases hspelled : ∃ unit : TimeUnit, TimeUnit.word u ∈ unit.spellings
    · obtain ⟨unit, hunit⟩ := hspelled
      rw [hparts.read_of_mem hm hunit]
      by_cases hmeasured : Measured ⟨m, unit⟩
      · rw [checked_of_measured hmeasured]
        exact .value hparts hm hunit hmeasured
      · obtain ⟨rfl, hne⟩ := Classical.not_imp.1 hmeasured
        rw [checked_of_not_measured hmeasured]
        exact .missingUnit hparts hm hunit hne
    · have hunknown : ∀ unit : TimeUnit, TimeUnit.word u ∉ unit.spellings := not_exists.1 hspelled
      rw [hparts.read_of_forall_notMem hm hunknown]
      exact .unknownUnit hparts hm hunknown
  · rw [hparts.read_of_unfit hunfit]
    exact .invalidMagnitude hparts hunfit

/-- **The reader follows the grammar.** -/
theorem read_eq_iff_readsAs {r : Except TimeError TimeValue} :
    read text = r ↔ ReadsAs text.toList r := by
  refine ⟨fun h => h ▸ readsAs_read text, fun h => ?_⟩
  generalize hs : text.toList = s at h
  subst hs
  cases h with
  | empty h => exact read_of_blank (trimsTo_iff.1 h)
  | invalidMagnitude h hd => exact h.read_of_unfit hd
  | unknownUnit h hd hw => exact h.read_of_forall_notMem hd hw
  | missingUnit h hd hw hm =>
    rw [h.read_of_mem hd hw]
    exact if_pos ⟨rfl, hm⟩
  | value h hd hw hm =>
    rw [h.read_of_mem hd hw]
    exact checked_of_measured (t := ⟨_, _⟩) hm

/-! ### What does not matter -/

/-- A property that the case of letters does not touch holds of the first character of both texts or
of neither. -/
theorem forall_head?_of_map_eq {P : Char → Prop} {u' : List Char}
    (hP : ∀ c : Char, P c.toLower ↔ P c) (hu : u'.map Char.toLower = u.map Char.toLower)
    (h : ∀ c ∈ u.head?, P c) : ∀ c ∈ u'.head?, P c := by
  intro c hc
  have hlower : c.toLower ∈ (u.map Char.toLower).head? := by
    rw [← hu, List.head?_map, hc]
    rfl
  rw [List.head?_map, Option.mem_map] at hlower
  obtain ⟨c', hc', heq⟩ := hlower
  exact (hP c).1 (heq ▸ (hP c').2 (h c' hc'))

theorem word_of_map_eq {u' : List Char} (hu : u'.map Char.toLower = u.map Char.toLower) :
    TimeUnit.word u' = TimeUnit.word u := by
  have hlower : TimeUnit.lower = Char.toLower := funext TimeUnit.lower_eq_toLower
  rw [TimeUnit.word, TimeUnit.word, hlower, ← trim_map isBlank_toLower, hu,
    trim_map isBlank_toLower]

/-- A text of the same letters is trimmed alike. -/
theorem trim_of_map_eq {u' : List Char} (hu : u'.map Char.toLower = u.map Char.toLower)
    (htrim : trim u = u) : trim u' = u' := by
  have hlower : (trim u').map Char.toLower = u'.map Char.toLower := by
    rw [← trim_map isBlank_toLower, hu, trim_map isBlank_toLower, htrim]
  have hlength : (trim u').length = u'.length := by
    simpa using congrArg List.length hlower
  obtain ⟨before, after, hsplit, -⟩ := (trimsTo_iff.2 (rfl : trim u' = trim u')).around
  have hsum := congrArg List.length hsplit
  simp only [List.length_append] at hsum
  have hbefore : before = [] := List.eq_nil_of_length_eq_zero (by omega)
  have hafter : after = [] := List.eq_nil_of_length_eq_zero (by omega)
  rw [hbefore, hafter, List.nil_append, List.append_nil] at hsplit
  exact hsplit.symm

variable {before between after u' : List Char}

/-- The parts stay the same if blanks are put around them and letters are changed. -/
theorem HasParts.vary (ht : TrimsTo s t) (hne : t ≠ []) (hsplit : SplitsInto t d u)
    (hbefore : ∀ c ∈ before, isBlank c = true) (hbetween : ∀ c ∈ between, isBlank c = true)
    (hafter : ∀ c ∈ after, isBlank c = true)
    (hcase : u'.map Char.toLower = u.map Char.toLower) :
    HasParts (before ++ d ++ between ++ u' ++ after) d (TimeUnit.word u) := by
  obtain ⟨rfl, hd, hhead⟩ := splitsInto_iff_head.1 hsplit
  have hhead' : ∀ c ∈ u'.head?, ¬GoesOn d c :=
    forall_head?_of_map_eq (fun c => not_congr goesOn_toLower) hcase hhead
  rw [hasParts_iff]
  by_cases hempty : d = []
  · -- the word is all there is, and the blanks in front of it are blanks around the text
    subst hempty
    have hword : trim u = u := trim_eq_self ht.first ht.last
    have htrim : trim (before ++ [] ++ between ++ u' ++ after) = u' := by
      rw [List.append_nil, trim_append_of_blank u' (List.forall_mem_append.2 ⟨hbefore, hbetween⟩)
        hafter, trim_of_map_eq hcase hword]
    have hne' : u' ≠ [] := by
      rintro rfl
      exact hne (List.map_eq_nil_iff.1 hcase.symm)
    rw [htrim]
    exact ⟨hne', u', splitMagnitude_append hd hhead', word_of_map_eq hcase⟩
  · -- the blanks between the parts stand in front of the word when the number is cut off
    have htrim : trim (before ++ d ++ between ++ u' ++ after) = d ++ trimEnd (between ++ u') := by
      have hshape : before ++ d ++ between ++ u' ++ after =
          before ++ (d ++ (between ++ u')) ++ after := by
        simp only [List.append_assoc]
      rw [hshape, trim_append_of_blank _ hbefore hafter,
        trim_append_of_not_blank hempty fun c => hd.isBlank_of_mem]
    have hrest : ∀ c ∈ (trimEnd (between ++ u')).head?, ¬GoesOn d c := fun c hc =>
      not_goesOn_behind_blanks hempty hbetween hhead' c (head?_of_trimEnd hc)
    have hword : TimeUnit.word (trimEnd (between ++ u')) = TimeUnit.word u := by
      have hsame := trim_append_of_blank u' hbetween (List.forall_mem_nil _)
      rw [List.append_nil] at hsame
      rw [TimeUnit.word, trim_trimEnd, hsame, ← TimeUnit.word, word_of_map_eq hcase]
    rw [htrim]
    exact ⟨List.append_ne_nil_of_left_ne_nil hempty _, _, splitMagnitude_append hd hrest, hword⟩

/-- **Reading times.**  A text is read as the grammar says, for every outcome and in no other case.
So blanks around the text and between the number and the unit do not matter, and neither does the
case of the letters of the unit. -/
theorem reading_follows_grammar (text : String) :
    (∀ r, read text = r ↔ ReadsAs text.toList r) ∧
    ∀ t d u, TrimsTo text.toList t → SplitsInto t d u →
      ∀ before between after u', (∀ c ∈ before ++ between ++ after, isBlank c = true) →
        u'.map Char.toLower = u.map Char.toLower →
        read (String.ofList (before ++ d ++ between ++ u' ++ after)) = read text := by
  refine ⟨fun r => read_eq_iff_readsAs, ?_⟩
  intro t d u ht hsplit before between after u' hblank hcase
  rw [List.forall_mem_append, List.forall_mem_append] at hblank
  obtain ⟨⟨hbefore, hbetween⟩, hafter⟩ := hblank
  -- blanks alone have no parts to vary, and are refused however many there are
  by_cases hne : t = []
  · subst hne
    obtain ⟨rfl, rfl⟩ := List.append_eq_nil_iff.1 hsplit.append.symm
    obtain rfl : u' = [] := List.map_eq_nil_iff.1 hcase
    have hvaried : trim (before ++ [] ++ between ++ [] ++ after) = [] := by
      have hall := trim_append_of_blank [] (List.forall_mem_append.2 ⟨hbefore, hbetween⟩) hafter
      simp only [List.append_nil] at hall ⊢
      exact hall
    rw [← String.toList_ofList (l := before ++ [] ++ between ++ [] ++ after)] at hvaried
    rw [read_of_blank hvaried, read_of_blank (trimsTo_iff.1 ht)]
  · have hparts : HasParts text.toList d (TimeUnit.word u) := by
      obtain rfl := trimsTo_iff.1 ht
      exact hasParts_iff.2 ⟨hne, u, splitsInto_iff.1 hsplit, rfl⟩
    have hvaried := HasParts.vary ht hne hsplit hbefore hbetween hafter hcase
    rw [← String.toList_ofList (l := before ++ d ++ between ++ u' ++ after)] at hvaried
    exact hvaried.read_congr hparts

/-- Tabs, an ideographic space and a capital letter do not matter in the text of twenty
milliseconds. -/
theorem twenty_milliseconds_read :
    TrimsTo "20 ms".toList "20 ms".toList ∧
    SplitsInto "20 ms".toList "20".toList " ms".toList ∧
    (∀ c ∈ "\t".toList ++ "\u3000".toList ++ "\t".toList, isBlank c = true) ∧
    " Ms".toList.map Char.toLower = " ms".toList.map Char.toLower ∧
    read "\t20\u3000 Ms\t" = .ok ⟨20, .msec⟩ := by
  have htrim : TrimsTo "20 ms".toList "20 ms".toList := trimsTo_iff.2 (by decide +kernel)
  have hsplit : SplitsInto "20 ms".toList "20".toList " ms".toList :=
    splitsInto_iff.2 (by decide +kernel)
  have hblank : ∀ c ∈ "\t".toList ++ "\u3000".toList ++ "\t".toList, isBlank c = true :=
    List.all_eq_true.1 (by decide +kernel)
  have hcase : " Ms".toList.map Char.toLower = " ms".toList.map Char.toLower := by decide +kernel
  have hread : read "20 ms" = .ok ⟨20, .msec⟩ := by decide +kernel
  have hvaried := (reading_follows_grammar "20 ms").2 _ _ _ htrim hsplit _ _ _ _ hblank hcase
  have htext : String.ofList ("\t".toList ++ "20".toList ++ "\u3000".toList ++ " Ms".toList ++
      "\t".toList) = "\t20\u3000 Ms\t" := by decide +kernel
  rw [htext, hread] at hvaried
  exact ⟨htrim, hsplit, hblank, hcase, hvaried⟩

/-- A sign alone is no number, and a blank behind it ends what could be one. -/
example : read "- 5 ms" = .error (.invalidMagnitude "-") := by decide +kernel

end TimeValue
end Reactors
