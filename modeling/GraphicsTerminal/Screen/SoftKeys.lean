/-!
# Soft-key labels

Eight soft keys are labelled in two rows: the top row is reached with shift
and the bottom row without.  There are two banks of labels, one for the
functions of the terminal and one for the user, and one of them is shown.

Main definitions:

- {lit}`LabelBank`: the sixteen labels of one bank.
- {lit}`SoftKeys`: both banks and the choice between them.
-/

namespace GraphicsTerminal

/-- The number of keys in a row. -/
abbrev keysPerRow : Nat := 8

/-- The greatest number of characters in a label. -/
abbrev labelLength : Nat := 8

/-- A row of labels. -/
inductive KeyRow where
  | top
  | bottom
deriving DecidableEq, Repr

/-- The row that a key press reaches. -/
def KeyRow.ofShift (shift : Bool) : KeyRow := if shift then top else bottom

/-- A bank of labels. -/
inductive KeyBank where
  /-- Functions of the terminal. -/
  | mode
  /-- Functions chosen by the user. -/
  | user
deriving DecidableEq, Repr

/-- The other bank. -/
def KeyBank.other : KeyBank → KeyBank
  | mode => user
  | user => mode

/-- The labels of one bank, row by row. -/
structure LabelBank where
  top : Vector String keysPerRow
  bottom : Vector String keysPerRow
deriving DecidableEq

namespace LabelBank

/-- No labels. -/
def empty : LabelBank := ⟨Vector.replicate _ "", Vector.replicate _ ""⟩

/-- The labels of one row. -/
def row (bank : LabelBank) : KeyRow → Vector String keysPerRow
  | .top => bank.top
  | .bottom => bank.bottom

/-- The label of a key; a column outside has an empty one. -/
def label (bank : LabelBank) (row : KeyRow) (column : Nat) : String :=
  (bank.row row)[column]?.getD ""

/-- Store the first eight characters of a text as a label; a column outside
has no effect. -/
def setLabel (bank : LabelBank) (row : KeyRow) (column : Nat) (text : String) :
    LabelBank :=
  let label := String.ofList (text.toList.take labelLength)
  match row with
  | .top => { bank with top := bank.top.setIfInBounds column label }
  | .bottom => { bank with bottom := bank.bottom.setIfInBounds column label }

/-- All labels, the top row first. -/
def toList (bank : LabelBank) : List String := bank.top.toList ++ bank.bottom.toList

end LabelBank

/-- Both banks of labels and the one that is shown. -/
structure SoftKeys where
  mode : LabelBank
  user : LabelBank
  active : KeyBank
deriving DecidableEq

namespace SoftKeys

/-- The labels of a new terminal. -/
def initial : SoftKeys where
  mode := (LabelBank.empty.setLabel .top 7 " Config").setLabel .bottom 7 "  Keys"
  user :=
    { LabelBank.empty with
      top := #v["   f1", "   f2", "   f3", "   f4", "   f5", "   f6", "   f7", "   f8"] }
  active := .mode

/-- The labels of a bank. -/
def bank (keys : SoftKeys) : KeyBank → LabelBank
  | .mode => keys.mode
  | .user => keys.user

/-- Change the labels of a bank. -/
def modifyBank (keys : SoftKeys) (bank : KeyBank) (f : LabelBank → LabelBank) :
    SoftKeys :=
  match bank with
  | .mode => { keys with mode := f keys.mode }
  | .user => { keys with user := f keys.user }

/-- Show a bank. -/
def select (keys : SoftKeys) (bank : KeyBank) : SoftKeys := { keys with active := bank }

/-- Show the other bank. -/
def toggle (keys : SoftKeys) : SoftKeys := keys.select keys.active.other

/-- The label of a key in the bank that is shown. -/
def label (keys : SoftKeys) (row : KeyRow) (column : Nat) : String :=
  (keys.bank keys.active).label row column

end SoftKeys

end GraphicsTerminal
