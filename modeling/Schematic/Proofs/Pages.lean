import Mathlib.Logic.ExistsUnique
import Schematic.Admin.Table

/-!
# Pages of a table

Turning to a page sets its window, whatever the window before it was (`Page.turns_eq`). The
windows of all pages lie side by side: as long as 32 bits count the rows, a page starts as
many rows behind the first one as the pages before it hold (`Page.toNat_skip_window`), so
each row is on the page that its number divided by the size of pages names, and on no other
(`Page.shows_window_iff`). There are as many pages as have a row left (`lt_pageCount_iff`),
so none is missing and none is empty (`Page.pages_cover`).
-/

namespace Schematic

/-! ## Numbers of pages -/

section Counts

variable {total : UInt64} {size : UInt32} {i : Nat}

theorem toNat_pos_of_one_le (hsize : 1 ≤ size) : 0 < size.toNat :=
  UInt32.le_iff_toNat_le.1 hsize

/-- The last page need not be full. -/
theorem toNat_pageCount (hsize : 1 ≤ size) :
    (pageCount total size).toNat = (total.toNat + size.toNat - 1) / size.toNat := by
  have hpos : 0 < size.toNat := toNat_pos_of_one_le hsize
  have hne : size ≠ 0 := by
    rintro rfl
    exact absurd hpos (by decide)
  have hle : (total.toNat + size.toNat - 1) / size.toNat ≤ total.toNat := by
    have hmul : total.toNat ≤ size.toNat * total.toNat := Nat.le_mul_of_pos_left _ hpos
    rw [Nat.div_le_iff_le_mul_add_pred hpos]
    omega
  rw [pageCount, if_neg hne]
  exact UInt64.toNat_ofNat_of_lt (Nat.lt_of_le_of_lt hle total.toNat_lt)

/-- There is a page as long as a row is left for it. -/
theorem lt_pageCount_iff (hsize : 1 ≤ size) :
    i < (pageCount total size).toNat ↔ size.toNat * i < total.toNat := by
  have hpos : 0 < size.toNat := toNat_pos_of_one_le hsize
  rw [toNat_pageCount hsize, Nat.lt_iff_add_one_le, Nat.le_div_iff_mul_le hpos, Nat.succ_mul,
    Nat.mul_comm i]
  omega

end Counts

namespace Page

/-! ## Windows -/

/-- Whether a row is within a window, by its number. -/
def Shows (page : Page) (row : Nat) : Prop :=
  page.skip.toNat ≤ row ∧ row < page.skip.toNat + page.take.toNat

section Windows

variable {size : UInt32} {i row : Nat}

/-- A page that starts within 32 bits starts where the pages before it end. -/
theorem toNat_skip_window (hsize : 1 ≤ size) (hi : size.toNat * i < UInt32.size) :
    i < UInt32.size ∧ (window size (.ofNat i)).skip.toNat = size.toNat * i := by
  have hmul : i ≤ size.toNat * i := Nat.le_mul_of_pos_left i (toNat_pos_of_one_le hsize)
  have hlt : i < UInt32.size := Nat.lt_of_le_of_lt hmul hi
  have hindex : (UInt32.ofNat i).toNat = i := UInt32.toNat_ofNat_of_lt hlt
  have hmin : min (size.toNat * i) (UInt32.size - 1) = size.toNat * i := by omega
  refine ⟨hlt, ?_⟩
  rw [window, hindex, hmin]
  exact UInt32.toNat_ofNat_of_lt hi

/-- Of the pages of a size, a row is on the one that its number divided by the size names. -/
theorem shows_window_iff (hsize : 1 ≤ size) (hi : size.toNat * i < UInt32.size) :
    (window size (.ofNat i)).Shows row ↔ row / size.toNat = i := by
  have hpos : 0 < size.toNat := toNat_pos_of_one_le hsize
  have htake : (window size (.ofNat i)).take = size := rfl
  rw [Shows, (toNat_skip_window hsize hi).2, htake, Nat.div_eq_iff hpos, Nat.mul_comm i]
  omega

end Windows

/-! ## Runs -/

/-- A run of turns to pages, each given by a size and an index: the answer to each, and the
window it leaves behind. -/
def turns (page : Page) : List (UInt32 × UInt32) → List (Bool × Page)
  | [] => []
  | (size, index) :: calls =>
    let turned := page.fetchMore size index
    turned :: turned.2.turns calls

/-- The run: every turn leaves its own window, and says whether the one before was another. -/
theorem turns_eq (page : Page) (calls : List (UInt32 × UInt32)) :
    let windows := calls.map fun call => window call.1 call.2
    page.turns calls =
      (page :: windows).zipWith (fun before after => (decide (after ≠ before), after)) windows := by
  induction calls generalizing page with
  | nil => rfl
  | cons call calls ih =>
    obtain ⟨size, index⟩ := call
    exact congrArg (page.fetchMore size index :: ·) (ih _)

/-! ## All pages -/

/-- **Pages show every row once.** Of the pages of a size that there are for a number of rows,
each can be turned to and starts where the ones before it end; each shows a row, and each row
is shown by exactly one of them. In a run of turns each leaves its own window, and says
whether it is another one than before. -/
theorem pages_cover {total : UInt64} {size : UInt32} (hsize : 1 ≤ size)
    (htotal : total.toNat ≤ UInt32.size) (page : Page) :
    let turned (i : Nat) := (page.fetchMore size (.ofNat i)).2
    (∀ i < (pageCount total size).toNat,
        i < UInt32.size ∧ (turned i).take = size ∧ (turned i).skip.toNat = size.toNat * i ∧
          ∃ row < total.toNat, (turned i).Shows row) ∧
      (∀ row < total.toNat, ∃! i, i < (pageCount total size).toNat ∧ (turned i).Shows row) ∧
      ∀ calls : List (UInt32 × UInt32),
        let windows := calls.map fun call => window call.1 call.2
        page.turns calls = (page :: windows).zipWith
          (fun before after => (decide (after ≠ before), after)) windows := by
  intro turned
  have hstart : ∀ {i}, i < (pageCount total size).toNat → size.toNat * i < UInt32.size :=
    fun hi => Nat.lt_of_lt_of_le ((lt_pageCount_iff hsize).1 hi) htotal
  have hpos : 0 < size.toNat := toNat_pos_of_one_le hsize
  refine ⟨?_, ?_, turns_eq page⟩
  · intro i hi
    obtain ⟨hindex, hskip⟩ := toNat_skip_window hsize (hstart hi)
    refine ⟨hindex, rfl, hskip, size.toNat * i, (lt_pageCount_iff hsize).1 hi, ?_⟩
    rw [show turned i = window size (.ofNat i) from rfl, shows_window_iff hsize (hstart hi)]
    exact Nat.mul_div_cancel_left i hpos
  · intro row hrow
    have hpage : row / size.toNat < (pageCount total size).toNat :=
      (lt_pageCount_iff hsize).2 (Nat.lt_of_le_of_lt (Nat.mul_div_le row size.toNat) hrow)
    refine ⟨row / size.toNat, ⟨hpage, (shows_window_iff hsize (hstart hpage)).2 rfl⟩, ?_⟩
    rintro i ⟨hi, hshows⟩
    exact ((shows_window_iff hsize (hstart hi)).1 hshows).symm

/-- Of as many rows as 32 bits number the largest page shows all but the last one, which has the
second page for itself. -/
theorem pages_cover_largest :
    pageCount 4294967296 4294967295 = 2 ∧
      window 4294967295 1 = ⟨4294967295, 4294967295⟩ ∧
      (∃! i, i < (pageCount 4294967296 4294967295).toNat ∧
        ((first {}).fetchMore 4294967295 (.ofNat i)).2.Shows 4294967295) ∧
      (first {}).turns [(10, 0), (10, 3), (10, 3), (25, 1)] =
        [(false, ⟨10, 0⟩), (true, ⟨10, 30⟩), (false, ⟨10, 30⟩), (true, ⟨25, 25⟩)] := by
  have hsize : (1 : UInt32) ≤ 4294967295 := by decide
  have htotal : (4294967296 : UInt64).toNat ≤ UInt32.size := by decide
  obtain ⟨-, hrows, hturns⟩ := pages_cover hsize htotal (first {})
  exact ⟨by decide, by decide, hrows 4294967295 (by decide), hturns _⟩

end Page

end Schematic
