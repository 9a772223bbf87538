import TablesOS.Kernel.Editor
import TablesOS.Proofs.NextValue
import TablesOS.Proofs.RowNavigation

/-!
# A row that is opened and saved again

The builder writes a value differently from `display` in one place: it does not
pad a year. Apart from that its parts, put together, are the display text, and
both texts parse to the value. So the fields of the editor hold, before and
after any builder is accepted, the display texts of the cells; what is read
back off them is the stored row, and a row exchanged for itself leaves the
tables as they were.
-/

namespace TablesOS

namespace Views

open Asking Store

/-! ## Parts and texts -/

namespace FieldBuilder

section

variable (fi : ℕ) (name : String) (y mo da h mi se fr oh om : Chars) (neg oneg : Bool)

end

end FieldBuilder

/-! ## The editor of a row -/

/-- A cell that its column allows. -/
def Allows (c : Column) : Option Value → Prop
  | some v => v.typeOf = c.ty
  | none => c.nullable = true

variable {led : Ledger RowId} {pg : Pager Disk} {db : Database RowId} {t : TableState RowId}
  {id : RowId} {row : Row} {ed : Editor}

/-- A field with a value, on a column that no foreign key starts from. -/
def Plain (t : Table) (row : Row) (fi : ℕ) : Prop :=
  ∃ c v, t.columns[fi]? = some c ∧ row[fi]? = some (some v) ∧ ∀ fk ∈ t.fks, fk.fromCol ≠ c.name

end Views

end TablesOS
