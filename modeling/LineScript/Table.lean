-- SUMMARY: Tables by name, in order of first entry.
import LineScript.Json

/-!
# Tables

A table holds at most one value for a name. A name that is put again keeps its place and takes the
new value. Names are JSON values without parts, and numbers and truth values that are equal as
numbers are one name.
-/

namespace LineScript

/-! ## Names -/

/-- The form of a name that decides which names are equal: truth values and whole numbers are
    integers. -/
def Scalar.key : Scalar → Scalar
  | .bool b => .int (if b then 1 else 0)
  | .real x =>
    match x.toInt? with
    | some n => .int n
    | none => .real x
  | s => s

/-- The number that a name is, as exact data. -/
def Scalar.number? : Scalar → Option Binary64
  | .bool b => some (.finite false (if b then 1 else 0) 0)
  | .int n => some (.finite (n < 0) n.natAbs 0)
  | .real x => some x
  | .null | .text _ => none

/-- The name is a text. -/
def Scalar.isText : Scalar → Bool
  | .text _ => true
  | _ => false

/-- The name comes before another one. Texts have an order among themselves, and so have numbers. -/
def Scalar.before (a b : Scalar) : Bool :=
  match a, b with
  | .text s, .text t => s < t
  | _, _ =>
    match a.number?, b.number? with
    | some x, some y => x.less y
    | _, _ => false

/-- Names that have an order: texts only, or numbers only, or no two names. -/
def Scalar.haveOrder (names : List Scalar) : Bool :=
  names.length ≤ 1 || names.all Scalar.isText || names.all fun n => n.number?.isSome

/-- The name that a JSON value is; lists and objects are none. -/
def Json.name? : Json → Option Scalar
  | .scalar s => some s
  | .list _ | .object _ => none

/-! ## Tables -/

/-- A table by name. -/
structure Table (α : Type) where
  entries : List (Scalar × α)
  deriving DecidableEq, Repr

namespace Table

variable {α : Type}

/-- No entries. -/
def empty : Table α := ⟨[]⟩

/-- The value of a name. -/
def get? (t : Table α) (name : Scalar) : Option α :=
  (t.entries.find? fun e => e.1.key = name.key).map Prod.snd

/-- Put a value into a list of entries. -/
def putEntry (name : Scalar) (value : α) : List (Scalar × α) → List (Scalar × α)
  | [] => [(name, value)]
  | (k, v) :: rest =>
    if k.key = name.key then (k, value) :: rest else (k, v) :: putEntry name value rest

/-- Give a name a value. -/
def put (t : Table α) (name : Scalar) (value : α) : Table α := ⟨putEntry name value t.entries⟩

/-- Put values into a table one after another. -/
def putAll (t : Table α) (writes : List (Scalar × α)) : Table α :=
  writes.foldl (fun t w => t.put w.1 w.2) t

/-- Take a name out. -/
def erase (t : Table α) (name : Scalar) : Table α :=
  ⟨t.entries.filter fun e => e.1.key ≠ name.key⟩

/-- The name has a value. -/
def contains (t : Table α) (name : Scalar) : Bool := (t.get? name).isSome

/-- The names, in order of first entry. -/
def names (t : Table α) : List Scalar := t.entries.map Prod.fst

/-- The number of names. -/
def size (t : Table α) : Nat := t.entries.length

/-- The entries in order of the names, if the names have one. -/
def sorted? (t : Table α) : Option (List (Scalar × α)) :=
  if Scalar.haveOrder t.names then some (t.entries.mergeSort fun a b => !b.1.before a.1) else none

/-! ## Lemmas -/

@[simp] theorem get?_empty (name : Scalar) : (empty : Table α).get? name = none := rfl

@[simp] theorem get?_put_self (t : Table α) (name : Scalar) (v : α) :
    (t.put name v).get? name = some v := by
  obtain ⟨entries⟩ := t
  simp only [get?, put]
  induction entries with
  | nil => simp [putEntry]
  | cons e rest ih =>
    obtain ⟨k, w⟩ := e
    by_cases h : k.key = name.key
    · simp [putEntry, h]
    · simpa [putEntry, h] using ih

theorem get?_put_of_ne (t : Table α) {name other : Scalar} (v : α) (h : other.key ≠ name.key) :
    (t.put name v).get? other = t.get? other := by
  obtain ⟨entries⟩ := t
  simp only [get?, put]
  induction entries with
  | nil => simp [putEntry, Ne.symm h]
  | cons e rest ih =>
    obtain ⟨k, w⟩ := e
    by_cases hk : k.key = name.key
    · have : k.key ≠ other.key := by rw [hk]; exact Ne.symm h
      simp [putEntry, hk, Ne.symm h]
    · by_cases ho : k.key = other.key
      · simp [putEntry, ho, h]
      · simpa [putEntry, hk, ho] using ih

/-- What holds of all values of a table and of one more still holds when that one is put in. -/
theorem forall_mem_put {P : α → Prop} {t : Table α} (h : ∀ e ∈ t.entries, P e.2) (name : Scalar)
    {v : α} (hv : P v) : ∀ e ∈ (t.put name v).entries, P e.2 := by
  obtain ⟨entries⟩ := t
  simp only [put] at h ⊢
  induction entries with
  | nil => simpa [putEntry] using hv
  | cons e rest ih =>
    obtain ⟨k, w⟩ := e
    rw [List.forall_mem_cons] at h
    simp only [putEntry]
    split
    · exact List.forall_mem_cons.mpr ⟨hv, h.2⟩
    · exact List.forall_mem_cons.mpr ⟨h.1, ih h.2⟩

theorem forall_mem_putAll {P : α → Prop} {t : Table α} (h : ∀ e ∈ t.entries, P e.2)
    {writes : List (Scalar × α)} (hwrites : ∀ w ∈ writes, P w.2) :
    ∀ e ∈ (t.putAll writes).entries, P e.2 := by
  induction writes generalizing t with
  | nil => exact h
  | cons w writes ih =>
    rw [List.forall_mem_cons] at hwrites
    exact ih (forall_mem_put h w.1 hwrites.1) hwrites.2

theorem of_get? {P : α → Prop} {t : Table α} (h : ∀ e ∈ t.entries, P e.2) {name : Scalar} {v : α}
    (hv : t.get? name = some v) : P v := by
  obtain ⟨e, hfind, rfl⟩ := Option.map_eq_some_iff.mp hv
  exact h e (List.mem_of_find?_eq_some hfind)

@[simp] theorem get?_erase_self (t : Table α) (name : Scalar) :
    (t.erase name).get? name = none := by
  simp [get?, erase, List.find?_eq_none]

end Table

end LineScript
