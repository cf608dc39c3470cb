import Mathlib.Data.List.DropRight
import Reactors.Files.Path

/-!
# The names in a path

What a path leads to is told by where it starts, at the root or not, and by its names: the
segments that are not idle.  The path without its last name starts where the path does and has the
same names but the last, unless the path has no name at all; joining puts names behind.

## Main definitions

* `Path.names` — the segments of a path that are not idle.
* `Path.IsAbsolute` — a path that starts at the root.

## Main results

* `Path.segments_ofSegments`, `Path.ofSegments_segments` — segments and texts.
* `Path.names_parent?`, `Path.isAbsolute_parent?`, `Path.utf8ByteSize_parent?_lt` — the path
  without its last name.
* `Path.names_of_parent?_eq_none` — paths that have no last name to leave out.
* `Path.exists_segments_join`, `Path.isAbsolute_join` — names below a path.
-/

namespace Reactors
namespace Path

variable {path parent name : String} {l : List Char} {s : List Char}
  {ss kept dropped : List (List Char)}

/-! ### Segments -/

theorem segments_ne_nil (l : List Char) : segments l ≠ [] := by
  cases l with
  | nil => simp [segments]
  | cons c r =>
    unfold segments
    split <;> simp

theorem segments_slash (l : List Char) : segments ('/' :: l) = [] :: segments l := rfl

theorem segments_cons {c : Char} (hc : c ≠ '/') (hl : segments l = s :: ss) :
    segments (c :: l) = (c :: s) :: ss := by
  conv_lhs => unfold segments
  rw [hl]
  split
  · exact absurd rfl hc
  · next heq =>
    cases heq
    rfl
  · next heq => cases heq

/-- A slash begins a new segment; any other character goes into the first one. -/
theorem segments_cons_cases (c : Char) (l : List Char) :
    c = '/' ∧ segments (c :: l) = [] :: segments l ∨
      c ≠ '/' ∧ ∃ s ss, segments l = s :: ss ∧ segments (c :: l) = (c :: s) :: ss := by
  by_cases hc : c = '/'
  · exact .inl ⟨hc, by rw [hc, segments_slash]⟩
  · obtain ⟨s, ss, hl⟩ := List.exists_cons_of_ne_nil (segments_ne_nil l)
    exact .inr ⟨hc, s, ss, hl, segments_cons hc hl⟩

theorem slash_not_mem_of_mem_segments (hs : s ∈ segments l) : '/' ∉ s := by
  induction l generalizing s with
  | nil =>
    rw [List.eq_of_mem_singleton hs]
    exact List.not_mem_nil
  | cons c r ih =>
    rcases segments_cons_cases c r with ⟨-, hsegments⟩ | ⟨hc, t, ts, hr, hsegments⟩
    · rw [hsegments] at hs
      rcases List.mem_cons.1 hs with rfl | hs
      · exact List.not_mem_nil
      · exact ih hs
    · rw [hsegments] at hs
      rw [hr] at ih
      rcases List.mem_cons.1 hs with rfl | hs
      · rw [List.mem_cons, not_or]
        exact ⟨Ne.symm hc, ih List.mem_cons_self⟩
      · exact ih (List.mem_cons_of_mem _ hs)

theorem segments_append_slash (l m : List Char) :
    segments (l ++ '/' :: m) = segments l ++ segments m := by
  induction l with
  | nil => rfl
  | cons c r ih =>
    rw [List.cons_append]
    rcases segments_cons_cases c r with ⟨rfl, -⟩ | ⟨hc, t, ts, hr, hsegments⟩
    · rw [segments_slash, segments_slash, ih, List.cons_append]
    · rw [hr] at ih
      rw [hsegments]
      exact segments_cons hc ih

theorem segments_of_not_mem (hl : '/' ∉ l) : segments l = [l] := by
  induction l with
  | nil => rfl
  | cons c r ih =>
    rw [List.mem_cons, not_or] at hl
    exact segments_cons (Ne.symm hl.1) (ih hl.2)

theorem ofSegments_cons (s : List Char) (hne : ss ≠ []) :
    ofSegments (s :: ss) = s ++ '/' :: ofSegments ss := by
  cases ss with
  | nil => exact absurd rfl hne
  | cons t ts => rfl

theorem ofSegments_append (hkept : kept ≠ []) (hdropped : dropped ≠ []) :
    ofSegments (kept ++ dropped) = ofSegments kept ++ '/' :: ofSegments dropped := by
  induction kept with
  | nil => exact absurd rfl hkept
  | cons s ss ih =>
    rw [List.cons_append]
    cases ss with
    | nil => exact ofSegments_cons s hdropped
    | cons t ts =>
      rw [ofSegments_cons s (by simp), ofSegments_cons s (by simp), ih (by simp),
        List.append_assoc, List.cons_append]

/-- The segments of a text spell the text. -/
theorem ofSegments_segments (l : List Char) : ofSegments (segments l) = l := by
  induction l with
  | nil => rfl
  | cons c r ih =>
    rcases segments_cons_cases c r with ⟨rfl, hsegments⟩ | ⟨-, t, ts, hr, hsegments⟩
    · rw [hsegments, ofSegments_cons [] (segments_ne_nil r), ih, List.nil_append]
    · rw [hr] at ih
      rw [hsegments, ← ih]
      cases ts <;> rfl

/-- Segments are those of the text that they spell. -/
theorem segments_ofSegments (hne : ss ≠ []) (hslash : ∀ s ∈ ss, '/' ∉ s) :
    segments (ofSegments ss) = ss := by
  induction ss with
  | nil => exact absurd rfl hne
  | cons s ss ih =>
    rw [List.forall_mem_cons] at hslash
    cases ss with
    | nil => exact segments_of_not_mem hslash.1
    | cons t ts =>
      rw [ofSegments_cons s (by simp), segments_append_slash, segments_of_not_mem hslash.1,
        ih (by simp) hslash.2, List.singleton_append]

/-! ### Names -/

/-- The segments among these that are not idle. -/
def namesAmong (ss : List (List Char)) : List (List Char) := ss.filter fun s => !isIdle s

/-- The names of a path. -/
def names (path : String) : List (List Char) := namesAmong (segments path.toList)

/-- The path starts at the root. -/
def IsAbsolute (path : String) : Prop := path.toList.head? = some '/'

instance (path : String) : Decidable (IsAbsolute path) :=
  inferInstanceAs (Decidable (path.toList.head? = some '/'))

theorem namesAmong_append (ss ts : List (List Char)) :
    namesAmong (ss ++ ts) = namesAmong ss ++ namesAmong ts :=
  List.filter_append ..

theorem namesAmong_eq_nil_iff : namesAmong ss = [] ↔ ∀ s ∈ ss, isIdle s = true := by
  simp [namesAmong]

theorem namesAmong_cons_of_idle (hs : isIdle s = true) : namesAmong (s :: ss) = namesAmong ss :=
  List.filter_cons_of_neg (by simp [hs])

theorem namesAmong_cons_of_name (hs : isIdle s = false) :
    namesAmong (s :: ss) = s :: namesAmong ss :=
  List.filter_cons_of_pos (by simp [hs])

theorem dropLast_namesAmong (hname : namesAmong dropped = [s]) :
    (namesAmong (kept ++ dropped)).dropLast = namesAmong kept := by
  rw [namesAmong_append, hname, List.dropLast_concat]

theorem dropLast_namesAmong_singleton (s : List Char) : (namesAmong [s]).dropLast = [] := by
  rw [namesAmong, List.filter_singleton]
  cases isIdle s <;> rfl

theorem not_isAbsolute (hs : s ≠ []) (hpath : segments path.toList = s :: ss) :
    ¬ IsAbsolute path := by
  intro habsolute
  obtain ⟨r, hr⟩ := List.head?_eq_some_iff.1 habsolute
  rw [hr, segments_slash] at hpath
  exact hs (List.cons.inj hpath).1.symm

/-- Idle segments behind the last name are not names. -/
theorem exists_stripIdle_append (ss : List (List Char)) :
    ∃ idle, ss = stripIdle ss ++ idle ∧ namesAmong idle = [] := by
  refine ⟨ss.rtakeWhile isIdle, (List.rdropWhile_append_rtakeWhile).symm, ?_⟩
  exact namesAmong_eq_nil_iff.2 fun s hs => List.mem_rtakeWhile_imp hs

theorem namesAmong_stripIdle (ss : List (List Char)) :
    namesAmong (stripIdle ss) = namesAmong ss := by
  obtain ⟨idle, hss, hidle⟩ := exists_stripIdle_append ss
  conv_rhs => rw [hss, namesAmong_append, hidle, List.append_nil]

theorem dropName?_eq_none (h : dropName? ss = none) : namesAmong ss = [] := by
  rw [dropName?] at h
  split at h
  · next hnil => rw [← namesAmong_stripIdle, hnil, namesAmong, List.filter_nil]
  · cases h

theorem exists_stripIdle_eq (hne : stripIdle ss ≠ []) :
    ∃ before name, stripIdle ss = before ++ [name] ∧ isIdle name = false :=
  ⟨_, _, (List.dropLast_append_getLast hne).symm,
    eq_false_of_ne_true (List.rdropWhile_last_not isIdle ss hne)⟩

/-- One name is dropped, and idle segments around it. -/
theorem dropName?_eq_some (h : dropName? ss = some kept) :
    ∃ dropped name, ss = kept ++ dropped ∧ namesAmong dropped = [name] := by
  rw [dropName?] at h
  split at h
  · cases h
  · next hne =>
    cases h
    obtain ⟨before, name, hstrip, hname⟩ := exists_stripIdle_eq hne
    obtain ⟨idle, hss, hidle⟩ := exists_stripIdle_append ss
    obtain ⟨idle', hbefore, hidle'⟩ := exists_stripIdle_append before
    rw [hstrip, List.dropLast_concat]
    refine ⟨idle' ++ [name] ++ idle, name, ?_, ?_⟩
    · conv_lhs => rw [hss, hstrip, hbefore]
      simp only [List.append_assoc]
    · rw [namesAmong_append, namesAmong_append, hidle, hidle', List.nil_append, List.append_nil,
        namesAmong, List.filter_singleton, hname]
      rfl

/-! ### The path without its last name -/

/-- A part with a name in it is not spelled by the empty text. -/
theorem ofSegments_ne_nil (hslash : ∀ s ∈ dropped, '/' ∉ s) (hnames : namesAmong dropped ≠ []) :
    ofSegments dropped ≠ [] := by
  intro hnil
  cases dropped with
  | nil => exact hnames rfl
  | cons s ss =>
    rw [← segments_ofSegments (by simp) hslash, hnil] at hnames
    exact hnames rfl

/-- What can stand between a path and the path without its last name. -/
inductive DropsLast (path parent : String) : Prop where
  /-- Below the root, the last of the names goes. -/
  | belowRoot (kept dropped : List (List Char)) (name : List Char)
      (hpath : segments path.toList = [] :: (kept ++ dropped))
      (hname : namesAmong dropped = [name]) (hparent : parent.toList = '/' :: ofSegments kept)
  /-- Behind the first segment, the last of the names goes. -/
  | behindFirst (first : List Char) (kept dropped : List (List Char)) (name : List Char)
      (hfirst : first ≠ []) (hpath : segments path.toList = first :: (kept ++ dropped))
      (hname : namesAmong dropped = [name]) (hparent : parent.toList = ofSegments (first :: kept))
  /-- The first segment is the last of the names, or idle itself. -/
  | first (first : List Char) (rest : List (List Char)) (hfirst : first ≠ [])
      (hpath : segments path.toList = first :: rest) (hrest : namesAmong rest = [])
      (hparent : parent = "")

theorem dropsLast_of_parent? (h : parent? path = some parent) : DropsLast path parent := by
  rw [parent?] at h
  split at h
  · cases h
  · cases h
  · next hpath =>
    obtain ⟨kept, hkept, rfl⟩ := Option.map_eq_some_iff.1 h
    obtain ⟨dropped, name, rfl, hname⟩ := dropName?_eq_some hkept
    exact .belowRoot kept dropped name hpath hname (String.toList_ofList ..)
  · next first rest hnil hroot hpath =>
    have hfirst : first ≠ [] := hroot
    split at h
    · next kept hkept =>
      obtain ⟨dropped, name, rfl, hname⟩ := dropName?_eq_some hkept
      cases h
      exact .behindFirst first kept dropped name hfirst hpath hname (String.toList_ofList ..)
    · next hrest =>
      cases h
      exact .first first rest hfirst hpath (dropName?_eq_none hrest) rfl

/-- The text of the shorter path stands at the beginning of the text of the path. -/
theorem DropsLast.exists_append (h : DropsLast path parent) :
    ∃ rest, path.toList = parent.toList ++ rest ∧ rest ≠ [] := by
  have hslash : ∀ s ∈ segments path.toList, '/' ∉ s := fun _ => slash_not_mem_of_mem_segments
  have htext := ofSegments_segments path.toList
  -- the text of a path is that of its segments with slashes between them
  cases h with
  | belowRoot kept dropped name hpath hname hparent =>
    have hdropped : ofSegments dropped ≠ [] := ofSegments_ne_nil
      (fun s hs => hslash s (by rw [hpath]; simp [hs])) (by rw [hname]; simp)
    have hne : dropped ≠ [] := by rintro rfl; cases hname
    rw [hpath, ofSegments_cons _ (by simp [hne]), List.nil_append] at htext
    cases kept with
    | nil => exact ⟨ofSegments dropped, by rw [hparent, ← htext]; rfl, hdropped⟩
    | cons s ss =>
      rw [ofSegments_append (by simp) hne] at htext
      exact ⟨'/' :: ofSegments dropped, by rw [hparent, ← htext]; rfl, by simp⟩
  | behindFirst first kept dropped name hfirst hpath hname hparent =>
    have hne : dropped ≠ [] := by rintro rfl; cases hname
    rw [hpath, ← List.cons_append, ofSegments_append (by simp) hne] at htext
    exact ⟨'/' :: ofSegments dropped, by rw [hparent, ← htext], by simp⟩
  | first first rest hfirst hpath hrest hparent =>
    refine ⟨path.toList, by rw [hparent]; rfl, ?_⟩
    intro hnil
    rw [hnil] at hpath
    exact hfirst (List.cons.inj hpath).1.symm

theorem DropsLast.names_eq (h : DropsLast path parent) : names parent = (names path).dropLast := by
  have hslash : ∀ s ∈ segments path.toList, '/' ∉ s := fun _ => slash_not_mem_of_mem_segments
  unfold names
  cases h with
  | belowRoot kept dropped name hpath hname hparent =>
    have hkept : namesAmong (segments (ofSegments kept)) = namesAmong kept := by
      by_cases hnil : kept = []
      · rw [hnil]
        rfl
      · rw [segments_ofSegments hnil fun s hs => hslash s (by rw [hpath]; simp [hs])]
    rw [hparent, segments_slash, hpath, namesAmong_cons_of_idle rfl, namesAmong_cons_of_idle rfl,
      dropLast_namesAmong hname, hkept]
  | behindFirst first kept dropped name hfirst hpath hname hparent =>
    have hkept : ∀ s ∈ first :: kept, '/' ∉ s := fun s hs => hslash s (by
      rw [hpath, ← List.cons_append]
      exact List.mem_append_left _ hs)
    rw [hparent, segments_ofSegments (by simp) hkept, hpath, ← List.cons_append,
      dropLast_namesAmong hname]
  | first first rest hfirst hpath hrest hparent =>
    rw [hparent, hpath, ← List.singleton_append, namesAmong_append, hrest, List.append_nil,
      dropLast_namesAmong_singleton]
    rfl

theorem DropsLast.isAbsolute_iff (h : DropsLast path parent) :
    IsAbsolute parent ↔ IsAbsolute path := by
  obtain ⟨rest, hrest, -⟩ := h.exists_append
  cases h with
  | belowRoot kept dropped name hpath hname hparent =>
    unfold IsAbsolute
    rw [hrest, hparent]
    rfl
  | behindFirst first kept dropped name hfirst hpath hname hparent =>
    have hrelative := not_isAbsolute hfirst hpath
    refine iff_of_false (fun habsolute => hrelative ?_) hrelative
    unfold IsAbsolute at habsolute ⊢
    rw [hrest, List.head?_append, habsolute]
    rfl
  | first first rest hfirst hpath hrest hparent =>
    refine iff_of_false ?_ (not_isAbsolute hfirst hpath)
    rw [hparent]
    decide

/-- The path without its last name has the other names. -/
theorem names_parent? (h : parent? path = some parent) : names parent = (names path).dropLast :=
  (dropsLast_of_parent? h).names_eq

/-- The path without its last name starts where the path does. -/
theorem isAbsolute_parent? (h : parent? path = some parent) :
    IsAbsolute parent ↔ IsAbsolute path :=
  (dropsLast_of_parent? h).isAbsolute_iff

theorem utf8ByteSize_parent?_lt (h : parent? path = some parent) :
    parent.utf8ByteSize < path.utf8ByteSize := by
  obtain ⟨rest, hrest, hne⟩ := (dropsLast_of_parent? h).exists_append
  have htext : path = parent ++ String.ofList rest :=
    String.toList_inj.1 (by rw [String.toList_append, String.toList_ofList, hrest])
  obtain ⟨c, r, rfl⟩ := List.exists_cons_of_ne_nil hne
  rw [htext, String.utf8ByteSize_append, String.ofList_cons, String.utf8ByteSize_append,
    String.utf8ByteSize_singleton]
  have := c.utf8Size_pos
  omega

/-- Only a path without names has no last one to leave out. -/
theorem names_of_parent?_eq_none (h : parent? path = none) : names path = [] := by
  rw [parent?] at h
  split at h
  · next hpath => exact absurd hpath (segments_ne_nil _)
  · next hpath =>
    rw [names, hpath]
    rfl
  · next hpath =>
    rw [names, hpath, namesAmong_cons_of_idle rfl]
    exact dropName?_eq_none (Option.map_eq_none_iff.1 h)
  · split at h <;> cases h

/-! ### Names below a path -/

/-- Joining puts the segments of one path behind the names of another. -/
theorem exists_segments_join (path name : String) :
    ∃ ss, segments (join path name).toList = ss ++ segments name.toList ∧
      namesAmong ss = names path := by
  rw [join]
  split
  · next hempty =>
    rw [String.isEmpty_iff.1 hempty]
    exact ⟨[], rfl, rfl⟩
  · split
    · next hslash =>
      obtain ⟨before, hbefore⟩ := List.getLast?_eq_some_iff.1 (eq_of_beq hslash)
      refine ⟨segments before, ?_, ?_⟩
      · rw [String.toList_append, hbefore, List.append_assoc, List.singleton_append,
          segments_append_slash]
      · rw [names, hbefore, segments_append_slash, namesAmong_append]
        exact (List.append_nil _).symm
    · refine ⟨segments path.toList, ?_, rfl⟩
      rw [String.toList_append, String.toList_append, List.append_assoc]
      exact segments_append_slash ..

/-- A path with something joined to it starts where it did. -/
theorem isAbsolute_join (path : String) (hname : ¬ IsAbsolute name) :
    IsAbsolute (join path name) ↔ IsAbsolute path := by
  rw [join]
  split
  · next hempty =>
    rw [String.isEmpty_iff.1 hempty]
    exact iff_of_false hname (by decide)
  · next hempty =>
    have hhead : ∀ t : String, IsAbsolute (path ++ t) ↔ IsAbsolute path := fun t => by
      unfold IsAbsolute
      obtain ⟨c, r, hpath⟩ := List.exists_cons_of_ne_nil (l := path.toList)
        (mt String.toList_eq_nil_iff.1 (mt String.isEmpty_iff.2 hempty))
      rw [String.toList_append, hpath]
      rfl
    split
    · exact hhead name
    · rw [String.append_assoc]
      exact hhead _

theorem utf8ByteSize_join_le (path name : String) :
    (join path name).utf8ByteSize ≤ path.utf8ByteSize + 1 + name.utf8ByteSize := by
  rw [join]
  split
  · omega
  · split
    · rw [String.utf8ByteSize_append]
      omega
    · rw [String.utf8ByteSize_append, String.utf8ByteSize_append]
      exact le_rfl

end Path
end Reactors
