import VleoNotebook.Life.World

/-! The two boards of a world in memory.

Both are lists of rows, and no row is in both. So what `nextGen` writes into `boardNext` leaves
`board` as it is, whatever cells were there before (`Rewritten`), and it computes every cell
from the board as it was when it began (`nextGen_rewrites`). -/
namespace VleoNotebook.Life

open Python (Ref Heap forRange forRange_holds)

/-- A list of `h` rows of `w` cells. -/
structure IsBoard (mem : Memory) (board : Ref) (rs : List Ref) (h w : Nat) : Prop where
  rows : mem.boards[board]? = some rs
  height : rs.length = h
  width : ∀ r ∈ rs, (mem.rows[r]?).map List.length = some w

/-- Other cells in these rows, and nothing else. -/
structure Rewritten (mem : Memory) (rs : List Ref) (mem' : Memory) : Prop where
  boards : mem'.boards = mem.boards
  others : ∀ r, r ∉ rs → mem'.rows[r]? = mem.rows[r]?
  widths : ∀ r : Ref, (mem'.rows[r]?).map List.length = (mem.rows[r]?).map List.length

theorem Rewritten.refl (mem : Memory) (rs : List Ref) : Rewritten mem rs mem :=
  ⟨rfl, fun _ _ => rfl, fun _ => rfl⟩

theorem Rewritten.trans {mem mem' mem'' : Memory} {rs : List Ref} (h : Rewritten mem rs mem')
    (h' : Rewritten mem' rs mem'') : Rewritten mem rs mem'' :=
  ⟨h'.boards.trans h.boards, fun r hr => (h'.others r hr).trans (h.others r hr),
    fun r => (h'.widths r).trans (h.widths r)⟩

theorem IsBoard.rewritten {mem mem' : Memory} {board : Ref} {rs rs' : List Ref} {h w : Nat}
    (hb : IsBoard mem board rs h w) (hm : Rewritten mem rs' mem') : IsBoard mem' board rs h w where
  rows := by rw [hm.boards, hb.rows]
  height := hb.height
  width := fun r hr => by rw [hm.widths, hb.width r hr]

namespace World

/-! ### One cell -/

/-- The cell of a row. -/
def cellOf (mem : Memory) (r : Ref) (x : Nat) : Option Int := (mem.rows[r]?).bind (·[x]?)

theorem exists_cellOf {mem : Memory} {board : Ref} {rs : List Ref} {h w : Nat}
    (hb : IsBoard mem board rs h w) {r : Ref} (hr : r ∈ rs) {x : Nat} (hx : x < w) :
    ∃ v, cellOf mem r x = some v := by
  obtain ⟨row, hrow, hlen⟩ := Option.map_eq_some_iff.mp (hb.width r hr)
  refine ⟨row[x], ?_⟩
  rw [cellOf, hrow, Option.bind_some, List.getElem?_eq_getElem]

theorem cell_eq {mem : Memory} {board : Ref} {rs : List Ref} {h w : Nat}
    (hb : IsBoard mem board rs h w) {y : Nat} {r : Ref} (hr : rs[y]? = some r) {x : Nat}
    (hx : x < w) : cell mem board y x = cellOf mem r x := by
  obtain ⟨row, hrow, hlen⟩ := Option.map_eq_some_iff.mp (hb.width r (List.mem_of_getElem? hr))
  have hcell : row[x]? = some row[x] := List.getElem?_eq_getElem (by omega)
  rw [cell, Heap.getItem_eq hb.rows hr, cellOf, hrow, Option.bind_some, hcell]
  exact Heap.getItem_eq hrow hcell

/-- What is written into one cell. -/
def write (mem : Memory) (r : Ref) (x : Nat) (v : Int) : Memory :=
  { mem with rows := mem.rows.modify r (·.set x v) }

theorem setCell_eq {mem : Memory} {board : Ref} {rs : List Ref} {h w : Nat}
    (hb : IsBoard mem board rs h w) {y : Nat} {r : Ref} (hr : rs[y]? = some r) {x : Nat}
    (hx : x < w) (v : Int) : setCell mem board y x v = some (write mem r x v) := by
  obtain ⟨row, hrow, hlen⟩ := Option.map_eq_some_iff.mp (hb.width r (List.mem_of_getElem? hr))
  rw [setCell, Heap.getItem_eq hb.rows hr]
  simp only [Option.bind_eq_bind, Option.bind_some,
    Heap.setItem_eq hrow (by omega : x < row.length)]
  rw [write, List.modify_eq_set_getElem?, hrow]
  rfl

theorem rows_write (mem : Memory) (r r' : Ref) (x : Nat) (v : Int) :
    (write mem r x v).rows[r']? =
      if r = r' then (mem.rows[r']?).map (·.set x v) else mem.rows[r']? := by
  rw [write, List.getElem?_modify]
  split <;> simp

theorem rewritten_write {mem : Memory} {rs : List Ref} {r : Ref} (hr : r ∈ rs) (x : Nat) (v : Int) :
    Rewritten mem rs (write mem r x v) where
  boards := rfl
  others := fun r' hr' => by
    rw [rows_write, if_neg]
    rintro rfl
    exact hr' hr
  widths := fun r' => by
    rw [rows_write]
    split
    · rw [Option.map_map]
      congr 1
      funext row
      exact List.length_set
    · rfl

theorem cellOf_write_self {mem : Memory} {r : Ref} {x : Nat} {v' : Int}
    (h : cellOf mem r x = some v') (v : Int) : cellOf (write mem r x v) r x = some v := by
  obtain ⟨row, hrow, hx⟩ := Option.bind_eq_some_iff.mp h
  obtain ⟨hlt, -⟩ := List.getElem?_eq_some_iff.mp hx
  rw [cellOf, rows_write, if_pos rfl, hrow]
  exact List.getElem?_set_self hlt

theorem cellOf_write_ne {mem : Memory} {r r' : Ref} {x x' : Nat} (h : r ≠ r' ∨ x ≠ x') (v : Int) :
    cellOf (write mem r x v) r' x' = cellOf mem r' x' := by
  rw [cellOf, rows_write, cellOf]
  split
  next hr =>
    cases mem.rows[r']? with
    | none => rfl
    | some row => exact List.getElem?_set_ne (h.resolve_left (fun h => h hr))
  next => rfl

/-! ### All cells -/

theorem cell_rewritten {mem mem' : Memory} {board : Ref} {rs rs' : List Ref} {h w : Nat}
    (hb : IsBoard mem board rs h w) (hm : Rewritten mem rs' mem') (hapart : rs.Disjoint rs')
    (y x : Int) : cell mem' board y x = cell mem board y x := by
  have hrow (r : Ref) (hr : mem.boards.getItem board y = some r) : r ∈ rs := by
    rw [Heap.getItem, hb.rows] at hr
    exact Python.mem_of_item hr
  rw [cell, cell, hm.boards]
  cases hr : mem.boards.getItem board y with
  | none => rfl
  | some r =>
    show mem'.rows.getItem r x = mem.rows.getItem r x
    rw [Heap.getItem, Heap.getItem, hm.others r (hapart (hrow r hr))]

/-- A cell is computed from the board alone. -/
theorem nextCellGen_rewritten {mem mem' : Memory} {self : World} {rs rs' : List Ref} {h w : Nat}
    (hb : IsBoard mem self.board rs h w) (hm : Rewritten mem rs' mem') (hapart : rs.Disjoint rs')
    (x y : Nat) : nextCellGen mem' self x y = nextCellGen mem self x y := by
  have hcell (y x : Int) := cell_rewritten hb hm hapart y x
  simp only [nextCellGen, sigma, hcell]

/-- These cells of the rows hold what they should. -/
def Done (g : Nat → Nat → Int) (rs : List Ref) (w : Nat) (done : Nat → Nat → Prop) (mem : Memory) :
    Prop :=
  ∀ y x r, done y x → rs[y]? = some r → x < w → cellOf mem r x = some (g y x)

theorem Done.write {g : Nat → Nat → Int} {board : Ref} {rs : List Ref} {h w : Nat}
    {done : Nat → Nat → Prop} {mem : Memory} (hd : Done g rs w done mem)
    (hb : IsBoard mem board rs h w) (hnodup : rs.Nodup) {y : Nat} {r : Ref} (hr : rs[y]? = some r)
    {x : Nat} (hx : x < w) :
    Done g rs w (fun y' x' => done y' x' ∨ (y' = y ∧ x' = x)) (write mem r x (g y x)) := by
  intro y' x' r' hdone hr' hx'
  by_cases hsame : r = r' ∧ x = x'
  · obtain ⟨rfl, rfl⟩ := hsame
    have hy : y = y' := by
      have hlt := (List.getElem?_eq_some_iff.mp hr).1
      exact (List.getElem?_inj hlt hnodup).mp (hr.trans hr'.symm)
    obtain ⟨v, hv⟩ := exists_cellOf hb (List.mem_of_getElem? hr) hx
    rw [cellOf_write_self hv, hy]
  · rw [cellOf_write_ne (by tauto)]
    obtain hdone | ⟨rfl, rfl⟩ := hdone
    · exact hd y' x' r' hdone hr' hx'
    · exact absurd ⟨Option.some.inj (hr.symm.trans hr'), rfl⟩ hsame

/-- The loops of `nextGen`, from what every cell is computed to be. -/
theorem writeCells {mem : Memory} {self : World} {rs rs' : List Ref} {h w : Nat}
    (hb : IsBoard mem self.board rs h w) (hb' : IsBoard mem self.boardNext rs' h w)
    (hapart : rs.Disjoint rs') (hnodup : rs'.Nodup) {g : Nat → Nat → Int}
    (hg : ∀ y x, y < h → x < w → nextCellGen mem self x y = some (g y x)) :
    ∃ mem', forRange h (fun mem y => forRange w (self.writeCell y) mem) mem = some mem' ∧
      Rewritten mem rs' mem' ∧ Done g rs' w (fun y _ => y < h) mem' := by
  let Inv (done : Nat → Nat → Prop) (mem' : Memory) : Prop :=
    Rewritten mem rs' mem' ∧ Done g rs' w done mem'
  refine forRange_holds (fun y => Inv fun y' _ => y' < y) ?_ ?_
  · exact ⟨Rewritten.refl mem rs', fun _ _ _ hy => absurd hy (Nat.not_lt_zero _)⟩
  intro y mem₁ hy hinv
  have hy' : y < rs'.length := by rw [hb'.height]; exact hy
  have hr : rs'[y]? = some rs'[y] := List.getElem?_eq_getElem hy'
  have hcell (x : Nat) (mem₂ : Memory) (hx : x < w)
      (h₂ : Inv (fun y' x' => y' < y ∨ (y' = y ∧ x' < x)) mem₂) :
      ∃ mem₃, self.writeCell y mem₂ x = some mem₃ ∧
        Inv (fun y' x' => y' < y ∨ (y' = y ∧ x' < x + 1)) mem₃ := by
    obtain ⟨hrewritten, hdone⟩ := h₂
    have hboard := hb'.rewritten hrewritten
    refine ⟨write mem₂ rs'[y] x (g y x), ?_, ?_, ?_⟩
    · rw [writeCell, nextCellGen_rewritten hb hrewritten hapart, hg y x hy hx]
      exact setCell_eq hboard hr hx _
    · exact hrewritten.trans (rewritten_write (List.getElem_mem hy') x _)
    · intro y' x' r hd
      exact hdone.write hboard hnodup hr hx y' x' r (by omega)
  obtain ⟨mem₂, hrun, hrewritten, hdone⟩ :=
    forRange_holds (fun x => Inv fun y' x' => y' < y ∨ (y' = y ∧ x' < x))
      ⟨hinv.1, fun y' x' r hd => hinv.2 y' x' r (by omega)⟩ hcell
  exact ⟨mem₂, hrun, hrewritten, fun y' x' r hd hr hx => hdone y' x' r (by omega) hr hx⟩

end World

end VleoNotebook.Life
