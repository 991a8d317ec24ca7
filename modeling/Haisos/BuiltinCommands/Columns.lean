import Mathlib.Tactic
import Haisos.Hsh.Text

/-!
# Listing in columns

`ListInColumns` of `Ls.cpp`.  An index outside its list and a subtraction below zero
are failures here, so that a result says there were none.
-/

namespace Haisos.BuiltinCommands.Ls

open Hsh (Text text)

def kColumnGap : Nat := 2

/-- The columns and rows of a listing, and how wide each column is. -/
structure Layout where
  columns : Nat
  rows : Nat
  widths : List Nat
  deriving DecidableEq, Repr

/-- The column of the item with index `i`. -/
def columnOf (across : Bool) (columns rows i : Nat) : Nat :=
  if across then i % columns else i / rows

/-- `tryWidths` after the items from index `i` on. -/
def widthsFrom (column : Nat → Nat) : Nat → List Text → List Nat → Option (List Nat)
  | _, [], widths => some widths
  | i, item :: rest, widths =>
      match widths[column i]? with
      | none => none
      | some w => widthsFrom column (i + 1) rest (widths.set (column i) (max w item.length))

/-- The layout with that many columns and rows, each column as wide as its longest item. -/
def layoutWith (items : List Text) (across : Bool) (columns rows : Nat) : Option Layout :=
  (widthsFrom (columnOf across columns rows) 0 items (List.replicate columns 0)).map
    fun widths => ⟨columns, rows, widths⟩

def rowsFor (count columns : Nat) : Nat := (count + columns - 1) / columns

/-- The layout for a number of columns to try; the last ones may have nothing in them. -/
def tryLayout (items : List Text) (across : Bool) (tryColumns : Nat) : Option Layout :=
  let tryRows := rowsFor items.length tryColumns
  let usedColumns := if across then tryColumns else rowsFor items.length tryRows
  layoutWith items across usedColumns tryRows

def Layout.lineLength (layout : Layout) : Nat :=
  kColumnGap * (layout.columns - 1) + layout.widths.sum

/-- The layout found from a number of columns down. -/
def chooseLayout (items : List Text) (width : Nat) (across : Bool) : Nat → Option Layout
  | 0 => some ⟨1, items.length, []⟩
  | tryColumns + 1 =>
      match tryLayout items across (tryColumns + 1) with
      | none => none
      | some layout =>
          if width = 0 ∨ layout.lineLength < width ∨ layout.columns = 1 then some layout
          else chooseLayout items width across tryColumns

def index (across : Bool) (columns rows row column : Nat) : Nat :=
  if across then row * columns + column else column * rows + row

/-- The line of a row from `column` on, with `remaining` columns to go. -/
def lineFrom (items : List Text) (across : Bool) (layout : Layout) (row : Nat) :
    Nat → Nat → Text → Option Text
  | 0, _, line => some line
  | remaining + 1, column, line =>
      let index := index across layout.columns layout.rows row column
      match items[index]? with
      | none => some line
      | some item =>
          let next := if across then index + 1 else index + layout.rows
          if column + 1 = layout.columns ∨ next ≥ items.length then
            lineFrom items across layout row remaining (column + 1) (line ++ item)
          else
            match layout.widths[column]? with
            | none => none
            | some w =>
                if item.length ≤ w then
                  lineFrom items across layout row remaining (column + 1)
                    (line ++ item ++ List.replicate (w - item.length + kColumnGap) ' ')
                else none

/-- The lines of a layout, without the newlines that end them. -/
def printLines (items : List Text) (across : Bool) (layout : Layout) : Option (List Text) :=
  (List.range layout.rows).mapM fun row =>
    lineFrom items across layout row layout.columns 0 []

def listInColumns (items : List Text) (width : Nat) (across : Bool) : Option (List Text) :=
  (chooseLayout items width across items.length).bind (printLines items across)

/-! ## Which columns there are -/

/-- A number of columns and rows that a fill order gives `count` items. -/
structure IsLayout (count : Nat) (across : Bool) (columns rows : Nat) : Prop where
  columns_pos : 0 < columns
  rows_pos : 0 < rows
  enough : count ≤ columns * rows
  across_full : across = true → columns ≤ count ∧ (rows - 1) * columns < count
  down_full : across = false → (columns - 1) * rows < count

theorem le_rowsFor_mul (count : Nat) {columns : Nat} (h : 0 < columns) :
    count ≤ columns * rowsFor count columns := by
  have hlt := Nat.lt_mul_div_succ (count + columns - 1) h
  rw [rowsFor, Nat.mul_add] at *
  omega

theorem rowsFor_mul_lt {count columns : Nat} (hcount : 0 < count) (h : 0 < columns) :
    (rowsFor count columns - 1) * columns < count := by
  have hle := Nat.div_mul_le_self (count + columns - 1) columns
  rw [Nat.sub_mul, ← rowsFor] at *
  have hpos : columns ≤ rowsFor count columns * columns := by
    have := Nat.le_mul_of_pos_left columns (n := rowsFor count columns)
      (Nat.div_pos (by omega) h)
    exact this
  omega

theorem rowsFor_pos {count columns : Nat} (hcount : 0 < count) (h : 0 < columns) :
    0 < rowsFor count columns := Nat.div_pos (by omega) h

theorem isLayout_try {count columns : Nat} (hcount : 0 < count) (h : 0 < columns)
    (hle : columns ≤ count) (across : Bool) :
    IsLayout count across
      (if across then columns else rowsFor count (rowsFor count columns))
      (rowsFor count columns) := by
  have hrows := rowsFor_pos hcount h
  cases across with
  | true =>
      exact ⟨h, hrows, le_rowsFor_mul count h, fun _ => ⟨hle, rowsFor_mul_lt hcount h⟩,
        by rintro ⟨⟩⟩
  | false =>
      refine ⟨rowsFor_pos hcount hrows, hrows, ?_, by rintro ⟨⟩,
        fun _ => rowsFor_mul_lt hcount hrows⟩
      have hle := le_rowsFor_mul count hrows
      rw [Nat.mul_comm] at hle
      exact hle

def rowOf (across : Bool) (columns rows i : Nat) : Nat :=
  if across then i / columns else i % rows

section
variable {count columns rows : Nat} {across : Bool} (h : IsLayout count across columns rows)
include h

theorem IsLayout.columnOf_lt {i : Nat} (hi : i < count) :
    columnOf across columns rows i < columns := by
  have henough := h.enough
  cases across with
  | true => exact Nat.mod_lt i h.columns_pos
  | false =>
      exact Nat.div_lt_of_lt_mul (by rw [Nat.mul_comm] at henough; omega)

theorem IsLayout.rowOf_lt {i : Nat} (hi : i < count) : rowOf across columns rows i < rows := by
  have henough := h.enough
  cases across with
  | true => exact Nat.div_lt_of_lt_mul (by omega)
  | false => exact Nat.mod_lt i h.rows_pos

theorem IsLayout.index_eq_iff {row column i : Nat} (hrow : row < rows) (hcolumn : column < columns) :
    index across columns rows row column = i ↔
      row = rowOf across columns rows i ∧ column = columnOf across columns rows i := by
  cases across with
  | true =>
      simp only [index, rowOf, columnOf, if_true]
      constructor
      · rintro rfl
        rw [Nat.mul_comm, Nat.mul_add_div h.columns_pos, Nat.mul_add_mod,
          Nat.div_eq_of_lt hcolumn, Nat.mod_eq_of_lt hcolumn]
        exact ⟨rfl, rfl⟩
      · rintro ⟨rfl, rfl⟩
        rw [Nat.mul_comm]
        exact Nat.div_add_mod i columns
  | false =>
      simp only [index, rowOf, columnOf, Bool.false_eq_true, if_false]
      constructor
      · rintro rfl
        rw [Nat.mul_comm, Nat.mul_add_div h.rows_pos, Nat.mul_add_mod, Nat.div_eq_of_lt hrow,
          Nat.mod_eq_of_lt hrow]
        exact ⟨rfl, rfl⟩
      · rintro ⟨rfl, rfl⟩
        rw [Nat.mul_comm]
        exact Nat.div_add_mod i rows

theorem IsLayout.lastColumn : ∃ row < rows, index across columns rows row (columns - 1) < count := by
  have hcolumns := h.columns_pos
  refine ⟨0, h.rows_pos, ?_⟩
  cases across with
  | true =>
      have hfull := (h.across_full rfl).1
      simp only [index, if_true]
      omega
  | false => simpa [index] using h.down_full rfl

end

theorem index_succ (across : Bool) (columns rows row column : Nat) :
    index across columns rows row (column + 1) =
      if across then index across columns rows row column + 1
      else index across columns rows row column + rows := by
  cases across with
  | true => simp [index, Nat.add_assoc]
  | false =>
      simp only [index, Bool.false_eq_true, if_false, Nat.add_mul]
      omega

theorem index_mono (across : Bool) (columns rows row : Nat) {c c' : Nat} (h : c ≤ c') :
    index across columns rows row c ≤ index across columns rows row c' := by
  cases across with
  | true =>
      simp only [index, if_true]
      omega
  | false =>
      have hmul := Nat.mul_le_mul_right rows h
      simp only [index, Bool.false_eq_true, if_false]
      omega

/-! ## How wide the columns are -/

theorem widthsFrom_spec (column : Nat → Nat) (i : Nat) (items : List Text) (widths : List Nat)
    (h : ∀ j < items.length, column (i + j) < widths.length) :
    ∃ out : List Nat, widthsFrom column i items widths = some out ∧ out.length = widths.length ∧
      (∀ c : Nat, widths[c]?.getD 0 ≤ out[c]?.getD 0) ∧
      (∀ (j : Nat) item, items[j]? = some item → item.length ≤ out[column (i + j)]?.getD 0) ∧
      ∀ c : Nat, out[c]?.getD 0 = widths[c]?.getD 0 ∨
        ∃ (j : Nat) (item : Text), items[j]? = some item ∧ column (i + j) = c ∧ item.length = out[c]?.getD 0 := by
  induction items generalizing i widths with
  | nil => exact ⟨widths, rfl, rfl, fun _ => le_rfl, by simp, fun _ => .inl rfl⟩
  | cons item rest ih =>
      have hlt : column i < widths.length := by simpa using h 0 (by simp)
      obtain ⟨out, hout, hlength, hle, hitems, hlongest⟩ :=
        ih (i + 1) (widths.set (column i) (max widths[column i] item.length)) (by
          intro j hj
          have hnext := h (j + 1) (by simpa using hj)
          rw [List.length_set]
          rwa [show i + 1 + j = i + (j + 1) by omega])
      have hset : ∀ c, (widths.set (column i) (max widths[column i] item.length))[c]?.getD 0 =
          if c = column i then max widths[column i] item.length else widths[c]?.getD 0 := by
        intro c
        rw [List.getElem?_set]
        by_cases hc : column i = c
        · simp [hc.symm, hlt]
        · simp [hc, Ne.symm hc]
      refine ⟨out, ?_, by simpa using hlength, ?_, ?_, ?_⟩
      · rw [widthsFrom, List.getElem?_eq_getElem hlt]
        exact hout
      · intro c
        refine le_trans ?_ (hle c)
        rw [hset]
        split_ifs with hc
        · subst hc
          simp [hlt]
        · exact le_rfl
      · intro j found hfound
        cases j with
        | zero =>
            obtain rfl : item = found := by simpa using hfound
            refine le_trans ?_ (hle (column (i + 0)))
            rw [hset, Nat.add_zero, if_pos rfl]
            exact le_max_right _ _
        | succ j =>
            have hnext := hitems j found (by simpa using hfound)
            rwa [show i + (j + 1) = i + 1 + j by omega]
      · intro c
        rcases hlongest c with hsame | ⟨j, found, hfound, hcolumn, hlen⟩
        · rw [hset] at hsame
          split_ifs at hsame with hc
          · subst hc
            rcases max_choice widths[column i] item.length with hmax | hmax
            · left
              rw [hsame, hmax]
              simp [hlt]
            · exact .inr ⟨0, item, rfl, rfl, by rw [hsame, hmax]⟩
          · exact .inl hsame
        · exact .inr ⟨j + 1, found, by simpa using hfound,
            by rw [← hcolumn]; congr 1; omega, hlen⟩

structure IsWide (items : List Text) (across : Bool) (layout : Layout) : Prop where
  length : layout.widths.length = layout.columns
  fits : ∀ (i : Nat) item, items[i]? = some item →
    item.length ≤ layout.widths[columnOf across layout.columns layout.rows i]?.getD 0
  longest : ∀ c : Nat, layout.widths[c]?.getD 0 = 0 ∨ ∃ (i : Nat) (item : Text),
    items[i]? = some item ∧ columnOf across layout.columns layout.rows i = c ∧
      item.length = layout.widths[c]?.getD 0

theorem layoutWith_spec {items : List Text} {across : Bool} {columns rows : Nat}
    (h : IsLayout items.length across columns rows) :
    ∃ layout, layoutWith items across columns rows = some layout ∧
      layout.columns = columns ∧ layout.rows = rows ∧ IsWide items across layout := by
  obtain ⟨widths, hwidths, hlength, -, hfits, hlongest⟩ :=
    widthsFrom_spec (columnOf across columns rows) 0 items (List.replicate columns 0) (by
      intro j hj
      rw [Nat.zero_add, List.length_replicate]
      exact h.columnOf_lt hj)
  refine ⟨⟨columns, rows, widths⟩, by rw [layoutWith, hwidths]; rfl, rfl, rfl,
    ⟨by simpa using hlength, by simpa using hfits, ?_⟩⟩
  intro c
  have hzero : (List.replicate columns 0)[c]?.getD 0 = 0 := by
    rw [List.getElem?_replicate]
    split_ifs <;> rfl
  simpa [hzero] using hlongest c

/-! ## The lines -/

/-- Where a column starts. -/
def Layout.start (layout : Layout) (column : Nat) : Nat :=
  ((layout.widths.take column).map (· + kColumnGap)).sum

theorem Layout.start_succ (layout : Layout) {column : Nat} (h : column < layout.widths.length) :
    layout.start (column + 1) =
      layout.start column + layout.widths[column]?.getD 0 + kColumnGap := by
  rw [start, start, List.take_succ_eq_append_getElem h, List.map_append, List.sum_append,
    List.getElem?_eq_getElem h]
  simp [Nat.add_assoc]

theorem Layout.start_mono (layout : Layout) {c c' : Nat} (h : c ≤ c') :
    layout.start c ≤ layout.start c' := by
  have hsublist : (layout.widths.take c).Sublist (layout.widths.take c') :=
    (List.take_prefix_take_left h).sublist
  exact (hsublist.map _).sum_le_sum fun _ _ => Nat.zero_le _

theorem Layout.lineLength_add_gap {layout : Layout} (hlength : layout.widths.length = layout.columns)
    (hpos : 0 < layout.columns) :
    layout.lineLength + kColumnGap = layout.start layout.columns := by
  have hsum : ∀ widths : List Nat,
      (widths.map (· + kColumnGap)).sum = widths.sum + kColumnGap * widths.length := by
    intro widths
    induction widths with
    | nil => rfl
    | cons w widths ih =>
        simp only [List.map_cons, List.sum_cons, ih, List.length_cons, Nat.mul_add]
        omega
  rw [start, List.take_of_length_le hlength.le, hsum, hlength, lineLength]
  obtain ⟨n, hn⟩ : ∃ n, layout.columns = n + 1 := ⟨layout.columns - 1, by omega⟩
  rw [hn, Nat.add_sub_cancel, Nat.mul_add]
  omega

def itemAt (items : List Text) (across : Bool) (layout : Layout) (row column : Nat) :
    Option Text :=
  items[index across layout.columns layout.rows row column]?

/-- What a line holds up to a column: the items at the starts of their columns, blanks
elsewhere. -/
structure LineTo (items : List Text) (across : Bool) (layout : Layout) (row column : Nat)
    (printed : Text) : Prop where
  placed : ∀ c < column, ∀ item, itemAt items across layout row c = some item →
    layout.start c + item.length ≤ printed.length ∧
      (printed.drop (layout.start c)).take item.length = item
  blank : ∀ (k : Nat) ch, printed[k]? = some ch → ch = ' ' ∨ ∃ c < column, ∃ item,
    itemAt items across layout row c = some item ∧ layout.start c ≤ k ∧
      k < layout.start c + item.length

section
variable {items : List Text} {across : Bool} {layout : Layout}

theorem LineTo.append {row column : Nat} {printed : Text}
    (h : LineTo items across layout row column printed) {item : Text}
    (hitem : itemAt items across layout row column = some item)
    (hstart : printed.length = layout.start column) (spaces : Nat) :
    LineTo items across layout row (column + 1)
      (printed ++ item ++ List.replicate spaces ' ') := by
  constructor
  · intro c hc found hfound
    rcases Nat.lt_succ_iff_lt_or_eq.1 hc with hlt | rfl
    · obtain ⟨hle, htake⟩ := h.placed c hlt found hfound
      refine ⟨by simp; omega, ?_⟩
      rw [List.append_assoc, List.drop_append_of_le_length (by omega),
        List.take_append_of_le_length (by simp; omega), htake]
    · obtain rfl : item = found := Option.some.inj (hitem.symm.trans hfound)
      refine ⟨by simp; omega, ?_⟩
      rw [List.append_assoc, List.drop_append_of_le_length (by omega),
        List.drop_eq_nil_of_le (by omega), List.nil_append, List.take_left]
  · intro k ch hch
    rcases Nat.lt_or_ge k printed.length with hlt | hge
    · rw [List.append_assoc, List.getElem?_append_left hlt] at hch
      rcases h.blank k ch hch with hblank | ⟨c, hc, found, hfound, hspan⟩
      · exact .inl hblank
      · exact .inr ⟨c, by omega, found, hfound, hspan⟩
    · rw [List.append_assoc, List.getElem?_append_right hge] at hch
      rcases Nat.lt_or_ge (k - printed.length) item.length with hlt | hge'
      · exact .inr ⟨column, by omega, item, hitem, by omega, by omega⟩
      · rw [List.getElem?_append_right hge', List.getElem?_replicate] at hch
        split_ifs at hch
        exact .inl (Option.some.inj hch).symm

theorem LineTo.ended {row column : Nat} {printed : Text}
    (h : LineTo items across layout row column printed) (hcolumn : column ≤ layout.columns)
    (hend : itemAt items across layout row column = none) :
    LineTo items across layout row layout.columns printed := by
  have hnone : ∀ c, column ≤ c → itemAt items across layout row c = none := by
    intro c hc
    rw [itemAt, List.getElem?_eq_none_iff] at hend ⊢
    exact hend.trans (index_mono across _ _ row hc)
  constructor
  · intro c _ item hitem
    rcases Nat.lt_or_ge c column with hlt | hge
    · exact h.placed c hlt item hitem
    · rw [hnone c hge] at hitem
      cases hitem
  · intro k ch hch
    rcases h.blank k ch hch with hblank | ⟨c, hc, item, hitem, hspan⟩
    · exact .inl hblank
    · exact .inr ⟨c, by omega, item, hitem, hspan⟩

variable (hlayout : IsLayout items.length across layout.columns layout.rows)
  (hwide : IsWide items across layout)
include hlayout hwide

theorem width_of_itemAt {row column : Nat} (hrow : row < layout.rows)
    (hcolumn : column < layout.columns) {item : Text}
    (hitem : itemAt items across layout row column = some item) :
    item.length ≤ layout.widths[column]?.getD 0 := by
  have hfits := hwide.fits _ item hitem
  rwa [← ((hlayout.index_eq_iff hrow hcolumn).1 rfl).2] at hfits

/-- The rest of a line is printed, and is no longer than a printed of the layout may be. -/
theorem lineFrom_spec {row : Nat} (hrow : row < layout.rows) (remaining column : Nat)
    (hremaining : column + remaining = layout.columns) (printed : Text)
    (h : LineTo items across layout row column printed)
    (hgoes : column < layout.columns → itemAt items across layout row column ≠ none →
      printed.length = layout.start column)
    (hends : column = layout.columns ∨ itemAt items across layout row column = none →
      printed.length + kColumnGap ≤ layout.start layout.columns) :
    ∃ out, lineFrom items across layout row remaining column printed = some out ∧
      LineTo items across layout row layout.columns out ∧
      out.length + kColumnGap ≤ layout.start layout.columns := by
  induction remaining generalizing column printed with
  | zero =>
      obtain rfl : column = layout.columns := by omega
      exact ⟨printed, rfl, h, hends (.inl rfl)⟩
  | succ remaining ih =>
      rw [lineFrom]
      cases hitem : items[index across layout.columns layout.rows row column]? with
      | none =>
          exact ⟨printed, by simp only, h.ended (by omega) hitem,
            hends (.inr hitem)⟩
      | some item =>
          have hlt : column < layout.columns := by omega
          have hstart := hgoes hlt (by rw [itemAt, hitem]; exact Option.some_ne_none _)
          have hsucc := layout.start_succ
            (show column < layout.widths.length by rw [hwide.length]; exact hlt)
          have hwidth : item.length ≤ layout.widths[column]?.getD 0 :=
            width_of_itemAt hlayout hwide hrow hlt hitem
          have hmono := layout.start_mono (show column + 1 ≤ layout.columns by omega)
          have hnext : (if across then index across layout.columns layout.rows row column + 1
              else index across layout.columns layout.rows row column + layout.rows) =
              index across layout.columns layout.rows row (column + 1) :=
            (index_succ across _ _ row column).symm
          simp only [hnext]
          split_ifs with hlast
          · have hline := h.append hitem hstart 0
            simp only [List.replicate_zero, List.append_nil] at hline
            refine ih (column + 1) (by omega) _ hline ?_ ?_
            · intro hmore hsome
              rcases hlast with hcolumns | hcount
              · omega
              · exact absurd (List.getElem?_eq_none hcount) hsome
            · intro _
              simp only [List.length_append]
              omega
          · obtain ⟨hcolumns, hcount⟩ := not_or.1 hlast
            have hget : layout.widths[column]? = some (layout.widths[column]?.getD 0) := by
              rw [List.getElem?_eq_getElem (by rw [hwide.length]; exact hlt)]
              rfl
            rw [hget]
            simp only [hwidth, if_true]
            refine ih (column + 1) (by omega) _ (h.append hitem hstart _) ?_ ?_
            · intro _ _
              simp only [List.length_append, List.length_replicate]
              omega
            · rintro (hcontra | hnone)
              · omega
              · rw [itemAt, List.getElem?_eq_none_iff] at hnone
                omega

theorem start_columns_ge : kColumnGap ≤ layout.start layout.columns := by
  have hsucc := layout.start_succ
    (show 0 < layout.widths.length by rw [hwide.length]; exact hlayout.columns_pos)
  have hmono := layout.start_mono (show 0 + 1 ≤ layout.columns from hlayout.columns_pos)
  omega

theorem printLines_spec :
    ∃ lines, printLines items across layout = some lines ∧ lines.length = layout.rows ∧
      ∀ (row : Nat) printed, lines[row]? = some printed →
        LineTo items across layout row layout.columns printed ∧
          printed.length ≤ layout.lineLength := by
  have hlength := Layout.lineLength_add_gap hwide.length hlayout.columns_pos
  have hrow : ∀ row < layout.rows, ∃ printed,
      lineFrom items across layout row layout.columns 0 [] = some printed ∧
        LineTo items across layout row layout.columns printed ∧
          printed.length ≤ layout.lineLength := by
    intro row hrow
    obtain ⟨printed, hprinted, hline, hle⟩ := lineFrom_spec hlayout hwide hrow layout.columns 0
      (by omega) [] ⟨by simp, by simp⟩ (fun _ _ => rfl)
      (fun _ => by simpa using start_columns_ge hlayout hwide)
    exact ⟨printed, hprinted, hline, by omega⟩
  have hall : ∀ rows ≤ layout.rows, ∃ lines,
      (List.range rows).mapM (fun row => lineFrom items across layout row layout.columns 0 []) =
          some lines ∧ lines.length = rows ∧
        ∀ (row : Nat) printed, lines[row]? = some printed →
          LineTo items across layout row layout.columns printed ∧
            printed.length ≤ layout.lineLength := by
    intro rows hrows
    induction rows with
    | zero => exact ⟨[], rfl, rfl, by simp⟩
    | succ rows ih =>
        obtain ⟨lines, hlines, hcount, hspec⟩ := ih (by omega)
        obtain ⟨printed, hprinted, hline⟩ := hrow rows (by omega)
        refine ⟨lines ++ [printed], ?_, by simp [hcount], ?_⟩
        · rw [List.range_succ, List.mapM_append, hlines]
          simp [hprinted]
        · intro row found hfound
          rcases Nat.lt_or_ge row lines.length with hlt | hge
          · rw [List.getElem?_append_left hlt] at hfound
            exact hspec row found hfound
          · rw [List.getElem?_append_right hge, List.getElem?_singleton] at hfound
            split_ifs at hfound with hzero
            cases hfound
            obtain rfl : row = rows := by omega
            exact hline
  exact hall layout.rows le_rfl

theorem exists_longestLine {lines : List Text} (hlines : printLines items across layout = some lines) :
    ∃ printed ∈ lines, layout.lineLength ≤ printed.length := by
  obtain ⟨lines', hlines', hcount, hspec⟩ := printLines_spec hlayout hwide
  obtain rfl : lines' = lines := Option.some.inj (hlines'.symm.trans hlines)
  have hpos := hlayout.columns_pos
  have hlast : layout.columns - 1 < layout.columns := by omega
  have hlength := Layout.lineLength_add_gap hwide.length hpos
  have hsucc := layout.start_succ
    (show layout.columns - 1 < layout.widths.length by rw [hwide.length]; exact hlast)
  rw [Nat.sub_add_cancel hpos] at hsucc
  -- a longest item of the last column ends its line
  obtain ⟨row, hrow, item, hitem, hwidth⟩ : ∃ row < layout.rows, ∃ item,
      itemAt items across layout row (layout.columns - 1) = some item ∧
        layout.widths[layout.columns - 1]?.getD 0 ≤ item.length := by
    rcases hwide.longest (layout.columns - 1) with hzero | ⟨i, item, hitem, hcolumn, hlen⟩
    · obtain ⟨row, hrow, hlt⟩ := hlayout.lastColumn
      exact ⟨row, hrow, _, List.getElem?_eq_getElem hlt, by omega⟩
    · have hi := (List.getElem?_eq_some_iff.1 hitem).1
      have hplace := (hlayout.index_eq_iff (hlayout.rowOf_lt hi) hlast).2 ⟨rfl, hcolumn.symm⟩
      exact ⟨_, hlayout.rowOf_lt hi, item, by rw [itemAt, hplace, hitem], hlen.ge⟩
  have hget := List.getElem?_eq_getElem (l := lines') (i := row) (by omega)
  obtain ⟨hline, -⟩ := hspec row _ hget
  have hplaced := (hline.placed _ hlast item hitem).1
  exact ⟨_, List.mem_of_getElem? hget, by omega⟩

end

/-! ## The layout that is chosen -/

theorem rowsFor_le_iff {count columns rows : Nat} (h : 0 < columns) :
    rowsFor count columns ≤ rows ↔ count ≤ columns * rows := by
  constructor
  · intro hle
    exact (le_rowsFor_mul count h).trans (Nat.mul_le_mul_left columns hle)
  · intro hle
    refine Nat.lt_succ_iff.1 (Nat.div_lt_of_lt_mul ?_)
    rw [Nat.mul_succ]
    omega

theorem rowsFor_antitone {count columns columns' : Nat} (h : 0 < columns)
    (hle : columns ≤ columns') : rowsFor count columns' ≤ rowsFor count columns :=
  (rowsFor_le_iff (h.trans_le hle)).2
    ((le_rowsFor_mul count h).trans (Nat.mul_le_mul_right _ hle))

def usedColumns (count : Nat) (across : Bool) (tryColumns : Nat) : Nat :=
  if across then tryColumns else rowsFor count (rowsFor count tryColumns)

theorem usedColumns_mono {count columns columns' : Nat} (hcount : 0 < count) (h : 0 < columns)
    (hle : columns ≤ columns') (across : Bool) :
    usedColumns count across columns ≤ usedColumns count across columns' := by
  cases across with
  | true => exact hle
  | false =>
      exact rowsFor_antitone (rowsFor_pos hcount (h.trans_le hle)) (rowsFor_antitone h hle)

theorem IsLayout.usedColumns_eq {count columns : Nat} {across : Bool}
    (h : IsLayout count across columns (rowsFor count columns)) :
    usedColumns count across columns = columns := by
  cases across with
  | true => rfl
  | false =>
      have hfull := h.down_full rfl
      have hpos := h.columns_pos
      refine Nat.le_antisymm ?_ ?_
      · rw [usedColumns, if_neg Bool.false_ne_true, rowsFor_le_iff h.rows_pos, Nat.mul_comm]
        exact h.enough
      · by_contra hlt
        rw [usedColumns, if_neg Bool.false_ne_true, Nat.not_le, Nat.lt_iff_le_pred hpos,
          rowsFor_le_iff h.rows_pos, Nat.mul_comm] at hlt
        exact absurd hlt (by simpa using hfull)

theorem IsLayout.columns_le {count columns rows : Nat} {across : Bool}
    (h : IsLayout count across columns rows) : columns ≤ count := by
  cases across with
  | true => exact (h.across_full rfl).1
  | false =>
      have hfull := h.down_full rfl
      have hle := Nat.le_mul_of_pos_right (columns - 1) h.rows_pos
      omega

def Layout.Fits (layout : Layout) (width : Nat) : Prop := width = 0 ∨ layout.lineLength < width

theorem tryLayout_spec {items : List Text} (across : Bool) {tryColumns : Nat}
    (hcount : 0 < items.length) (h : 0 < tryColumns) (hle : tryColumns ≤ items.length) :
    ∃ layout, tryLayout items across tryColumns = some layout ∧
      layout.columns = usedColumns items.length across tryColumns ∧
      IsLayout items.length across layout.columns layout.rows ∧ IsWide items across layout := by
  have hlayout := isLayout_try hcount h hle across
  obtain ⟨layout, hsome, hcolumns, hrows, hwide⟩ := layoutWith_spec hlayout
  exact ⟨layout, hsome, hcolumns, by rw [hcolumns, hrows]; exact hlayout, hwide⟩

/-- From any number of columns down, the first layout that fits has the most columns. -/
theorem chooseLayout_spec {items : List Text} (hcount : 0 < items.length) (width : Nat)
    (across : Bool) {tryColumns : Nat} (hpos : 0 < tryColumns) (hle : tryColumns ≤ items.length) :
    ∃ layout, chooseLayout items width across tryColumns = some layout ∧
      IsLayout items.length across layout.columns layout.rows ∧ IsWide items across layout ∧
      (layout.Fits width ∨ layout.columns = 1) ∧
      ∀ c ≤ tryColumns, 0 < c → ∀ other, tryLayout items across c = some other →
        other.Fits width → other.columns ≤ layout.columns := by
  induction tryColumns with
  | zero => exact absurd hpos (Nat.lt_irrefl 0)
  | succ tryColumns ih =>
      obtain ⟨layout, hlayout, hcolumns, his, hwide⟩ :=
        tryLayout_spec across hcount hpos hle
      rw [chooseLayout, hlayout]
      simp only
      split_ifs with hfits
      · refine ⟨layout, rfl, his, hwide, ?_, ?_⟩
        · rcases hfits with hzero | hlt | hone
          · exact .inl (.inl hzero)
          · exact .inl (.inr hlt)
          · exact .inr hone
        · intro c hc hcpos other hother _
          obtain ⟨_, hsome, hused, -⟩ :=
            tryLayout_spec across hcount hcpos (hc.trans hle)
          cases hsome.symm.trans hother
          rw [hused, hcolumns]
          exact usedColumns_mono hcount hcpos hc across
      · have hnot : ¬ layout.Fits width := by
          rintro (hzero | hlt)
          · exact hfits (.inl hzero)
          · exact hfits (.inr (.inl hlt))
        have hmore : 0 < tryColumns := by
          by_contra hzero
          obtain rfl : tryColumns = 0 := by omega
          refine hfits (.inr (.inr ?_))
          have hle := his.columns_pos
          have hup : usedColumns items.length across 1 ≤ 1 := by
            cases across with
            | true => exact le_rfl
            | false =>
                rw [usedColumns, if_neg Bool.false_ne_true,
                  rowsFor_le_iff (rowsFor_pos hcount (by omega)), Nat.mul_one]
                simpa using le_rowsFor_mul items.length (show 0 < 1 by omega)
          rw [hcolumns] at hle ⊢
          exact Nat.le_antisymm hup hle
        obtain ⟨chosen, hchosen, his', hwide', hfits', hmost⟩ := ih hmore (by omega)
        refine ⟨chosen, hchosen, his', hwide', hfits', ?_⟩
        intro c hc hcpos other hother hotherFits
        rcases Nat.le_succ_iff.1 hc with hle' | rfl
        · exact hmost c hle' hcpos other hother hotherFits
        · cases hlayout.symm.trans hother
          exact absurd hotherFits hnot

/-! ## What is printed -/

/-- Every item in its place once, every column at its start, blanks between. -/
structure Printed (items : List Text) (across : Bool) (layout : Layout) (lines : List Text) :
    Prop where
  rows : lines.length = layout.rows
  once : ∀ i < items.length, ∃ row < layout.rows, ∃ column < layout.columns,
    index across layout.columns layout.rows row column = i ∧
      ∀ row' < layout.rows, ∀ column' < layout.columns,
        index across layout.columns layout.rows row' column' = i →
          row' = row ∧ column' = column
  line : ∀ (row : Nat) printed, lines[row]? = some printed →
    LineTo items across layout row layout.columns printed
  gap : ∀ row < layout.rows, ∀ column, column + 1 < layout.columns → ∀ item,
    itemAt items across layout row column = some item →
      layout.start column + item.length + kColumnGap ≤ layout.start (column + 1)

theorem printed_of_printLines {items : List Text} {across : Bool} {layout : Layout}
    (hlayout : IsLayout items.length across layout.columns layout.rows)
    (hwide : IsWide items across layout) {lines : List Text} (hrows : lines.length = layout.rows)
    (hlines : ∀ (row : Nat) printed, lines[row]? = some printed →
      LineTo items across layout row layout.columns printed) :
    Printed items across layout lines := by
  refine ⟨hrows, ?_, hlines, ?_⟩
  · intro i hi
    refine ⟨_, hlayout.rowOf_lt hi, _, hlayout.columnOf_lt hi,
      (hlayout.index_eq_iff (hlayout.rowOf_lt hi) (hlayout.columnOf_lt hi)).2 ⟨rfl, rfl⟩, ?_⟩
    intro row' hrow' column' hcolumn' hindex
    exact (hlayout.index_eq_iff hrow' hcolumn').1 hindex
  · intro row hrow column hcolumn item hitem
    have hwidth := width_of_itemAt hlayout hwide hrow (show column < layout.columns by omega) hitem
    have hsucc := layout.start_succ
      (show column < layout.widths.length by rw [hwide.length]; omega)
    omega

/--
Nothing is lost and everything fits: each item is printed once in its place, each line
is shorter than the width unless there is one column, and of the layouts that have no
more rows than their columns need, none whose lines fit has more columns.
-/
theorem listInColumns_prints (items : List Text) (width : Nat) (across : Bool) :
    ∃ layout lines, chooseLayout items width across items.length = some layout ∧
      listInColumns items width across = some lines ∧
      Printed items across layout lines ∧
      (∀ printed ∈ lines, width = 0 ∨ layout.columns = 1 ∨ printed.length < width) ∧
      ∀ columns rows other, IsLayout items.length across columns rows →
        rows = rowsFor items.length columns →
        (layoutWith items across columns rows).bind (printLines items across) = some other →
        (width = 0 ∨ ∀ printed ∈ other, printed.length < width) → columns ≤ layout.columns := by
  rcases Nat.eq_zero_or_pos items.length with hzero | hpos
  · obtain rfl := List.eq_nil_of_length_eq_zero hzero
    refine ⟨⟨1, 0, []⟩, [], rfl, rfl, ⟨rfl, by simp, by simp, by simp⟩, by simp, ?_⟩
    intro columns rows other hlayout
    have hle := hlayout.columns_le
    have hpos := hlayout.columns_pos
    simp only [List.length_nil] at hle
    omega
  · obtain ⟨layout, hchosen, his, hwide, hfits, hmost⟩ :=
      chooseLayout_spec hpos width across hpos le_rfl
    obtain ⟨lines, hlines, hrows, hspec⟩ := printLines_spec his hwide
    refine ⟨layout, lines, hchosen, by rw [listInColumns, hchosen]; exact hlines,
      printed_of_printLines his hwide hrows fun row printed h => (hspec row printed h).1, ?_, ?_⟩
    · intro printed hprinted
      obtain ⟨row, hrow⟩ := List.mem_iff_getElem?.1 hprinted
      have hle := (hspec row printed hrow).2
      rcases hfits with (hzero | hlt) | hone
      · exact .inl hzero
      · exact .inr (.inr (by omega))
      · exact .inr (.inl hone)
    · rintro columns rows other hlayout rfl hother hothers
      obtain ⟨found, hfound, hcolumns, hfoundRows, hfoundWide⟩ := layoutWith_spec hlayout
      rw [hfound] at hother
      have hfoundLayout : IsLayout items.length across found.columns found.rows := by
        rw [hcolumns, hfoundRows]
        exact hlayout
      have htry : tryLayout items across columns = some found := by
        have hused := hlayout.usedColumns_eq
        rw [usedColumns] at hused
        rw [tryLayout, hused, hfound]
      rw [← hcolumns]
      refine hmost columns hlayout.columns_le hlayout.columns_pos found htry ?_
      rcases hothers with hzero | hshort
      · exact .inl hzero
      · obtain ⟨printed, hin, hlong⟩ := exists_longestLine hfoundLayout hfoundWide hother
        exact .inr (lt_of_le_of_lt hlong (hshort printed hin))

theorem listInColumns_prints_across :
    ∃ layout, chooseLayout [text "ab", text "c", text "d"] 8 true 3 = some layout ∧
      2 ≤ layout.columns := by
  obtain ⟨layout, lines, hchosen, -, -, -, hmost⟩ :=
    listInColumns_prints [text "ab", text "c", text "d"] 8 true
  refine ⟨layout, hchosen, hmost 2 2 [text "ab  c", text "d"] ?_ (by decide) (by decide)
    (.inr (by decide))⟩
  exact ⟨by decide, by decide, by decide, fun _ => by decide, by rintro ⟨⟩⟩

/-- Long items on every other place. -/
def uneven : List Text := [text "aaaaaaaaaa", text "b", text "cccccccccc", text "d"]

/-- Filled down, two columns would fit; one is printed. -/
theorem listInColumns_uneven :
    listInColumns uneven 15 false = some uneven ∧
      (chooseLayout uneven 15 false uneven.length).map (·.columns) = some 1 ∧
      IsLayout uneven.length false 2 3 ∧
      (layoutWith uneven false 2 3).bind (printLines uneven false) =
        some [text "aaaaaaaaaa  d", text "b", text "cccccccccc"] ∧
      ∀ printed ∈ [text "aaaaaaaaaa  d", text "b", text "cccccccccc"], printed.length < 15 := by
  refine ⟨by decide, by decide, ?_, by decide, by decide⟩
  exact ⟨by decide, by decide, by decide, by rintro ⟨⟩, fun _ => by decide⟩

end Haisos.BuiltinCommands.Ls
