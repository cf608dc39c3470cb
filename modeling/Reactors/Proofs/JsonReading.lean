import Reactors.Proofs.JsonTexts

/-!
# Reading written documents

A document that is written as JSON and read again comes back as it was, apart from what JSON
cannot hold: a number that is not finite becomes null, an integer beyond the largest finite
number cannot be used, nor can a container that lies deeper than the reader goes.  The reader is a
machine with a stack of open containers; one value moves it from the place where a value is due
to the place behind it, whatever the stack holds.

## Main definitions

* `Document.levels` — how deep the containers of a document are nested.
* `Json.nesting` — how deep the containers of a text are nested.
* `Json.kept` — what is left of a document that is written and read.

## Main results

* `Json.nesting_compact`, `Json.nesting_pretty` — a text is nested as deep as its document.
* `Json.read_compact`, `Json.read_pretty` — what is read of a written document.
-/

namespace Reactors

/-! ### Nesting -/

namespace Document

mutual

/-- How deep containers are nested in a document; a scalar has no level. -/
def levels : Document → ℕ
  | .list ds => levelsOfItems ds + 1
  | .table es => levelsOfEntries es + 1
  | _ => 0

/-- How deep containers are nested in the items of a list. -/
def levelsOfItems : List Document → ℕ
  | [] => 0
  | d :: ds => max (levels d) (levelsOfItems ds)

/-- How deep containers are nested in the entries of a table. -/
def levelsOfEntries : List (Option String × Document) → ℕ
  | [] => 0
  | (_, d) :: es => max (levels d) (levelsOfEntries es)

end

theorem levelsOfItems_le_iff {ds : List Document} {n : ℕ} :
    levelsOfItems ds ≤ n ↔ ∀ d ∈ ds, d.levels ≤ n := by
  induction ds with
  | nil => simp [levelsOfItems]
  | cons d ds ih => rw [levelsOfItems, max_le_iff, ih, List.forall_mem_cons]

theorem levelsOfEntries_le_iff {es : List (Option String × Document)} {n : ℕ} :
    levelsOfEntries es ≤ n ↔ ∀ e ∈ es, e.2.levels ≤ n := by
  induction es with
  | nil => simp [levelsOfEntries]
  | cons e es ih => rw [levelsOfEntries, max_le_iff, ih, List.forall_mem_cons]

end Document

namespace Json

/-- The greatest number of containers that are open at once, of which `n` are open at the
start. -/
def nestingFrom : ℕ → List Token → ℕ
  | n, [] => n
  | n, .openList :: ts | n, .openTable :: ts => nestingFrom (n + 1) ts
  | n, .closeList :: ts | n, .closeTable :: ts => max n (nestingFrom (n - 1) ts)
  | n, _ :: ts => nestingFrom n ts

/-- How deep containers are nested in a text. -/
def nesting (text : String) : ℕ := nestingFrom 0 (tokens text.toList)

theorem le_nestingFrom (n : ℕ) (ts : List Token) : n ≤ nestingFrom n ts := by
  induction ts generalizing n with
  | nil => exact le_rfl
  | cons t ts ih =>
    cases t with
    | openList => exact le_trans (Nat.le_succ n) (ih (n + 1))
    | openTable => exact le_trans (Nat.le_succ n) (ih (n + 1))
    | closeList => exact le_max_left _ _
    | closeTable => exact le_max_left _ _
    | comma => exact ih n
    | colon => exact ih n
    | text => exact ih n
    | scalar => exact ih n
    | bad => exact ih n

theorem nestingFrom_scalarToken (d : Document) (n : ℕ) (ts : List Token) :
    nestingFrom n (scalarToken d :: ts) = max n (nestingFrom n ts) := by
  have hskip : nestingFrom n (scalarToken d :: ts) = nestingFrom n ts := by cases d <;> rfl
  rw [hskip, max_eq_right (le_nestingFrom n ts)]

mutual

/-- The tokens of a document nest as deep as the document. -/
theorem nestingFrom_tokensOf (d : Document) (n : ℕ) (ts : List Token) :
    nestingFrom n (tokensOf d ++ ts) = max (n + d.levels) (nestingFrom n ts) := by
  match d with
  | .list [] => rfl
  | .list (d :: ds) =>
    rw [tokensOf, List.cons_append, List.append_assoc, nestingFrom, nestingFrom_tokensOf d,
      nestingFrom_tokensOfItems ds, Document.levels, Document.levelsOfItems]
    omega
  | .table [] => rfl
  | .table ((k, d) :: es) =>
    rw [tokensOf, List.cons_append, List.cons_append, List.cons_append, List.append_assoc,
      nestingFrom, nestingFrom, nestingFrom, nestingFrom_tokensOf d,
      nestingFrom_tokensOfEntries es, Document.levels, Document.levelsOfEntries]
    · omega
    all_goals simp
  | .null => exact nestingFrom_scalarToken .null n ts
  | .bool b => exact nestingFrom_scalarToken (.bool b) n ts
  | .integer k => exact nestingFrom_scalarToken (.integer k) n ts
  | .float x => exact nestingFrom_scalarToken (.float x) n ts
  | .text s => exact nestingFrom_scalarToken (.text s) n ts
  | .illegible => exact nestingFrom_scalarToken .illegible n ts
  | .broken => exact nestingFrom_scalarToken .broken n ts

theorem nestingFrom_tokensOfItems (ds : List Document) (n : ℕ) (ts : List Token) :
    nestingFrom (n + 1) (tokensOfItems ds ++ ts) =
      max (n + 1 + Document.levelsOfItems ds) (nestingFrom n ts) := by
  match ds with
  | [] => rfl
  | d :: ds =>
    rw [tokensOfItems, List.cons_append, List.append_assoc, nestingFrom, nestingFrom_tokensOf d,
      nestingFrom_tokensOfItems ds, Document.levelsOfItems]
    · omega
    all_goals simp

theorem nestingFrom_tokensOfEntries (es : List Entry) (n : ℕ) (ts : List Token) :
    nestingFrom (n + 1) (tokensOfEntries es ++ ts) =
      max (n + 1 + Document.levelsOfEntries es) (nestingFrom n ts) := by
  match es with
  | [] => rfl
  | (k, d) :: es =>
    rw [tokensOfEntries, List.cons_append, List.cons_append, List.cons_append, List.append_assoc,
      nestingFrom, nestingFrom, nestingFrom, nestingFrom_tokensOf d,
      nestingFrom_tokensOfEntries es, Document.levelsOfEntries]
    · omega
    all_goals simp

end

theorem nestingFrom_document (d : Document) : nestingFrom 0 (tokensOf d) = d.levels := by
  have hnest := nestingFrom_tokensOf d 0 []
  rwa [List.append_nil, nestingFrom, Nat.zero_add, Nat.max_zero] at hnest

/-- A text is nested as deep as the document that it was written from. -/
theorem nesting_compact (d : Document) : nesting (compact d) = d.levels := by
  rw [nesting, tokens_compact, nestingFrom_document]

theorem nesting_pretty (d : Document) : nesting (pretty d) = d.levels := by
  rw [nesting, tokens_pretty, nestingFrom_document]

/-! ### What is left of a document -/

mutual

/-- What is left of a document that is written, and read where containers may be nested `n`
levels deep. -/
def kept : ℕ → Document → Document
  | n, .list ds => if n = 0 then .illegible else .list (keptItems (n - 1) ds)
  | n, .table es => if n = 0 then .illegible else .table (keptEntries (n - 1) es)
  | _, d => keptScalar d

/-- What is left of the items of a list. -/
def keptItems : ℕ → List Document → List Document
  | _, [] => []
  | n, d :: ds => kept n d :: keptItems n ds

/-- What is left of the entries of a table. -/
def keptEntries : ℕ → List Entry → List Entry
  | _, [] => []
  | n, (k, d) :: es => (some (k.getD ""), kept n d) :: keptEntries n es

end

/-! ### The machine -/

/-- What is read behind a value that lies in these frames. -/
def runBehind (d : Document) : List Frame → List Token → Document × List Token
  | [], ts => (d, ts)
  | .item before :: frames, ts => run frames (.itemEnd (d :: before)) ts
  | .entry before name :: frames, ts => run frames (.entryEnd ((name, d) :: before)) ts

theorem run_of_deliver {frames outer : List Frame} {position : Position} {t : Token} {d : Document}
    (h : step frames position t = deliver d outer) (ts : List Token) :
    run frames position (t :: ts) = runBehind d outer ts := by
  rw [run, h]
  cases outer with
  | nil => rfl
  | cons frame outer => cases frame <;> rfl

theorem run_of_next {frames outer : List Frame} {position next : Position} {t : Token}
    (h : step frames position t = .next outer next) (ts : List Token) :
    run frames position (t :: ts) = run outer next ts := by
  rw [run, h]

/-- A container is usable where a further level may be nested. -/
theorem deliverContainer_eq (d : Document) (frames : List Frame) :
    deliverContainer d frames =
      deliver (if deepest - frames.length = 0 then .illegible else d) frames := by
  rw [deliverContainer]
  congr 1
  split_ifs <;> first | rfl | omega

theorem run_of_container {frames outer : List Frame} {position : Position} {t : Token}
    {d : Document} (h : step frames position t = deliverContainer d outer) (ts : List Token) :
    run frames position (t :: ts) =
      runBehind (if deepest - outer.length = 0 then .illegible else d) outer ts :=
  run_of_deliver (h.trans (deliverContainer_eq d outer)) ts

/-- The first item of a list is a value like any other. -/
theorem run_listStart (d : Document) (frames : List Frame) (ts : List Token) :
    run frames .listStart (tokensOf d ++ ts) =
      run (.item [] :: frames) .value (tokensOf d ++ ts) := by
  match d with
  | .list [] => rfl
  | .list (d :: ds) => rfl
  | .table [] => rfl
  | .table (e :: es) => rfl
  | .null => rfl
  | .bool b => rfl
  | .integer n => rfl
  | .float x => rfl
  | .text s => rfl
  | .illegible => rfl
  | .broken => rfl

theorem run_scalarToken (d : Document) (frames : List Frame) (ts : List Token) :
    run frames .value (scalarToken d :: ts) = runBehind (keptScalar d) frames ts := by
  refine run_of_deliver ?_ ts
  cases d <;> rfl

mutual

/-- **Reading a written value leads behind it.** -/
theorem run_tokensOf (d : Document) (frames : List Frame) (ts : List Token) :
    run frames .value (tokensOf d ++ ts) =
      runBehind (kept (deepest - frames.length) d) frames ts := by
  match d with
  | .list [] =>
    rw [tokensOf, List.cons_append, List.singleton_append, run_of_next rfl,
      run_of_container rfl]
    rfl
  | .list (d :: ds) =>
    -- an item is a value in one more frame, so the containers in it have one level less
    rw [tokensOf, List.cons_append, List.append_assoc, run_of_next rfl, run_listStart,
      run_tokensOf d, runBehind, run_tokensOfItems ds]
    rfl
  | .table [] =>
    rw [tokensOf, List.cons_append, List.singleton_append, run_of_next rfl,
      run_of_container rfl]
    rfl
  | .table ((k, d) :: es) =>
    rw [tokensOf, List.cons_append, List.cons_append, List.cons_append, List.append_assoc,
      run_of_next rfl, run_of_next rfl, run_of_next rfl, run_tokensOf d, runBehind,
      run_tokensOfEntries es]
    rfl
  | .null => exact run_scalarToken .null frames ts
  | .bool b => exact run_scalarToken (.bool b) frames ts
  | .integer n => exact run_scalarToken (.integer n) frames ts
  | .float x => exact run_scalarToken (.float x) frames ts
  | .text s => exact run_scalarToken (.text s) frames ts
  | .illegible => exact run_scalarToken .illegible frames ts
  | .broken => exact run_scalarToken .broken frames ts

/-- Reading the rest of a list leads behind the list. -/
theorem run_tokensOfItems (ds before : List Document) (frames : List Frame) (ts : List Token) :
    run frames (.itemEnd before) (tokensOfItems ds ++ ts) =
      runBehind (if deepest - frames.length = 0 then .illegible
        else .list (before.reverse ++ keptItems (deepest - (frames.length + 1)) ds)) frames ts := by
  match ds with
  | [] =>
    rw [tokensOfItems, List.singleton_append, run_of_container rfl, keptItems,
      List.append_nil]
  | d :: ds =>
    rw [tokensOfItems, List.cons_append, List.append_assoc, run_of_next rfl, run_tokensOf d,
      runBehind, run_tokensOfItems ds, keptItems, List.reverse_cons, List.append_assoc,
      List.singleton_append, List.length_cons]

/-- Reading the rest of a table leads behind the table. -/
theorem run_tokensOfEntries (es before : List Entry) (frames : List Frame) (ts : List Token) :
    run frames (.entryEnd before) (tokensOfEntries es ++ ts) =
      runBehind (if deepest - frames.length = 0 then .illegible
        else .table (before.reverse ++ keptEntries (deepest - (frames.length + 1)) es)) frames
          ts := by
  match es with
  | [] =>
    rw [tokensOfEntries, List.singleton_append, run_of_container rfl,
      keptEntries, List.append_nil]
  | (k, d) :: es =>
    rw [tokensOfEntries, List.cons_append, List.cons_append, List.cons_append, List.append_assoc,
      run_of_next rfl, run_of_next rfl, run_of_next rfl, run_tokensOf d, runBehind,
      run_tokensOfEntries es, keptEntries, List.reverse_cons, List.append_assoc,
      List.singleton_append, List.length_cons]

end

theorem run_document (d : Document) : run [] .value (tokensOf d) = (kept deepest d, []) := by
  have hrun := run_tokensOf d [] []
  rwa [List.append_nil] at hrun

/-- **What is read of a written document.** -/
theorem read_compact (d : Document) : read (compact d) = ⟨kept deepest d, true⟩ := by
  rw [read, tokens_compact, run_document]
  rfl

theorem read_pretty (d : Document) : read (pretty d) = ⟨kept deepest d, true⟩ := by
  rw [read, tokens_pretty, run_document]
  rfl

end Json
end Reactors
