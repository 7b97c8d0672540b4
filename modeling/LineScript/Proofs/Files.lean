-- SUMMARY: What writing a file changes on a disk, and what it leaves as it was.
import LineScript.Disk
import Mathlib.Data.List.Basic

/-!
# Writing files

A text behind the name of a file extends the last name of its path. A file is written into a
directory that is there already, so writing adds no directory and every path leads to the same place
as before. The file at the written place has the new content, and all other files are as they were.
-/

namespace LineScript

attribute [ext] Place

/-! ## Names -/

namespace Path

theorem getLast?_extend (path : Path) (suffix : String) :
    (path.extend suffix).names.getLast? = path.names.getLast?.map (· ++ suffix) := by
  unfold extend
  split
  · next h => simp [h]
  · next h => simp [h]

/-- The text ends with a name, not with a slash or with a dot that is dropped. -/
def EndsInName (s : String) : Prop :=
  ∃ last, (splitSlashes s.toList).getLast? = some last ∧ last ≠ [] ∧ last ≠ ['.']

/-- A text without slashes goes to the last part. -/
theorem exists_splitSlashes_append (cs : List Char) {ds : List Char} (h : '/' ∉ ds) :
    ∃ init last, splitSlashes cs = init ++ [last] ∧
      splitSlashes (cs ++ ds) = init ++ [last ++ ds] := by
  induction cs with
  | nil =>
    refine ⟨[], [], rfl, ?_⟩
    induction ds with
    | nil => rfl
    | cons d ds ih =>
      rw [List.mem_cons, not_or] at h
      have hrest := ih h.2
      simp only [List.nil_append] at hrest ⊢
      rw [splitSlashes, if_neg (Ne.symm h.1), hrest]
  | cons c cs ih =>
    obtain ⟨init, last, hcs, happend⟩ := ih
    rw [List.cons_append, splitSlashes, splitSlashes, hcs, happend]
    split
    · exact ⟨[] :: init, last, rfl, rfl⟩
    · cases init with
      | nil => exact ⟨[], c :: last, rfl, rfl⟩
      | cons part init => exact ⟨(c :: part) :: init, last, rfl, rfl⟩

theorem rootOf_append {cs : List Char} (h : (splitSlashes cs).getLast? ≠ some [])
    (ds : List Char) : rootOf (cs ++ ds) = rootOf cs := by
  cases cs with
  | nil => exact absurd rfl h
  | cons a cs =>
    by_cases ha : a = '/'
    · subst ha
      cases cs with
      | nil => exact absurd rfl h
      | cons b cs =>
        by_cases hb : b = '/'
        · subst hb
          cases cs with
          | nil => exact absurd rfl h
          | cons c cs => by_cases hc : c = '/' <;> simp [rootOf, hc]
        · simp [rootOf, hb]
    · simp [rootOf, ha]

/-- A text behind a path that ends in a name extends the name. -/
theorem ofString_append {s suffix : String} (hs : EndsInName s) (hsuffix : '/' ∉ suffix.toList) :
    ofString (s ++ suffix) = (ofString s).extend suffix := by
  obtain ⟨last, hlast, hname, hdot⟩ := hs
  obtain ⟨init, last', hsplit, happend⟩ := exists_splitSlashes_append s.toList hsuffix
  obtain rfl : last' = last := by simpa [hsplit] using hlast
  have hroot := rootOf_append (by rw [hlast]; simpa using hname) suffix.toList
  have hkept : last' ++ suffix.toList ≠ [] ∧ last' ++ suffix.toList ≠ ['.'] := by
    simp [List.append_eq_singleton_iff, hname, hdot]
  simp [ofString, String.toList_append, hroot, hsplit, happend, extend, hname, hdot, hkept]

end Path

namespace Disk

/-! ## Ways -/

theorem leadsTo_iff {p q : Place} :
    leadsTo p q ↔
      p.base = q.base ∧ p.names.length < q.names.length ∧ p.names <+: q.names := by
  simp only [leadsTo, List.prefix_iff_eq_take, Bool.and_eq_true, decide_eq_true_eq, and_assoc]
  rw [eq_comm (a := p.names)]

theorem leadsTo_trans {p q r : Place} (hpq : leadsTo p q) (hqr : leadsTo q r) : leadsTo p r := by
  rw [leadsTo_iff] at *
  exact ⟨hpq.1.trans hqr.1, Nat.lt_trans hpq.2.1 hqr.2.1, hpq.2.2.trans hqr.2.2⟩

/-- The way to a name in a directory goes through the directory. -/
theorem leadsTo_child {p dir : Place} {name : String}
    (h : leadsTo p ⟨dir.base, dir.names ++ [name]⟩) : p = dir ∨ leadsTo p dir := by
  obtain ⟨hbase, hlength, hprefix⟩ := leadsTo_iff.mp h
  have hnames : p.names <+: dir.names :=
    List.prefix_of_prefix_length_le hprefix (List.prefix_append ..)
      (Nat.le_of_lt_succ (by simpa using hlength))
  rcases Nat.eq_or_lt_of_le hnames.length_le with heq | hlt
  · exact .inl (Place.ext hbase (hnames.eq_of_length heq))
  · exact .inr (leadsTo_iff.mpr ⟨hbase, hlt, hnames⟩)

theorem isDirectory_iff {d : Disk} {p : Place} :
    d.isDirectory p ↔
      p.names = [] ∨ p ∈ d.directories ∨ (∃ f ∈ d.files, leadsTo p f.1) ∨
        ∃ q ∈ d.directories, leadsTo p q := by
  simp [isDirectory, or_assoc]

/-- Every place on the way to a directory is a directory. -/
theorem isDirectory_of_leadsTo {d : Disk} {p q : Place} (hq : d.isDirectory q)
    (h : leadsTo p q) : d.isDirectory p := by
  rw [isDirectory_iff] at *
  rcases hq with hnil | hmem | ⟨f, hf, hlead⟩ | ⟨r, hr, hlead⟩
  · have hlength := (leadsTo_iff.mp h).2.1
    simp [hnil] at hlength
  · exact .inr (.inr (.inr ⟨q, hmem, h⟩))
  · exact .inr (.inr (.inl ⟨f, hf, leadsTo_trans h hlead⟩))
  · exact .inr (.inr (.inr ⟨r, hr, leadsTo_trans h hlead⟩))

theorem isDirectory_parent {d : Disk} {p : Place} (hp : d.isDirectory p) :
    d.isDirectory p.parent := by
  obtain ⟨base, names⟩ := p
  rcases List.eq_nil_or_concat' names with rfl | ⟨init, name, rfl⟩
  · cases base <;> exact isDirectory_iff.mpr (.inl rfl)
  · have hparent : Place.parent ⟨base, init ++ [name]⟩ = ⟨base, init⟩ := by
      cases init with
      | nil => rfl
      | cons a init => exact congrArg (Place.mk base) List.dropLast_concat
    rw [hparent]
    exact isDirectory_of_leadsTo hp (leadsTo_iff.mpr (by simp))

/-! ## Walks -/

theorem walk_append (d : Disk) (p : Place) (names more : List String) :
    d.walk p (names ++ more) = (d.walk p names).bind (d.walk · more) := by
  induction names generalizing p with
  | nil => rfl
  | cons name names ih =>
    rw [List.cons_append, walk, walk]
    split
    · rfl
    split
    · rfl
    · exact ih _

/-- The last step of a walk is out of a directory. -/
theorem walk_concat_eq_ok {d : Disk} {p q : Place} {names : List String} {name : String}
    (h : d.walk p (names ++ [name]) = .ok q) : ∃ dir, d.isDirectory dir ∧ q = dir.enter name := by
  rw [walk_append] at h
  cases hdir : d.walk p names with
  | error e => simp [hdir, Except.bind] at h
  | ok dir =>
    refine ⟨dir, ?_⟩
    simp only [hdir, Except.bind, walk] at h
    split at h
    · cases h
    split at h
    · cases h
    · exact ⟨by simp_all, (Except.ok.inj h).symm⟩

theorem walk_of_resolve {d : Disk} {path : Path} {p : Place} (h : d.resolve path = .ok p) :
    ∃ start : Place, start.names = [] ∧ d.walk start path.names = .ok p := by
  unfold resolve at h
  split at h
  · cases h
  split at h
  · cases h
  · exact ⟨_, rfl, h⟩

/-- A path to a place that is no directory ends with a name in a directory. -/
theorem exists_child_of_resolve {d : Disk} {path : Path} {p : Place} (h : d.resolve path = .ok p)
    (hp : d.isDirectory p = false) :
    ∃ dir name, path.names.getLast? = some name ∧ d.isDirectory dir ∧
      p = ⟨dir.base, dir.names ++ [name]⟩ := by
  obtain ⟨start, hstart, hwalk⟩ := walk_of_resolve h
  rcases List.eq_nil_or_concat' path.names with hnames | ⟨init, name, hnames⟩
  · rw [hnames] at hwalk
    obtain rfl := Except.ok.inj hwalk
    have hdir : d.isDirectory start := isDirectory_iff.mpr (.inl hstart)
    simp [hdir] at hp
  · rw [hnames] at hwalk
    obtain ⟨dir, hdir, rfl⟩ := walk_concat_eq_ok hwalk
    have hname : name ≠ ".." := by
      rintro rfl
      have hparent := isDirectory_parent hdir
      simp_all [Place.enter]
    exact ⟨dir, name, by simp [hnames], hdir, by simp [Place.enter, hname]⟩

theorem getLast?_of_resolve {d : Disk} {path : Path} {p : Place} (h : d.resolve path = .ok p)
    (hp : d.isDirectory p = false) : p.names.getLast? = path.names.getLast? := by
  obtain ⟨dir, name, hname, -, rfl⟩ := exists_child_of_resolve h hp
  simp [hname]

/-! ## Files by place -/

theorem lookup_putFile (p q : Place) (content : ByteArray) (files : List (Place × ByteArray)) :
    (putFile p content files).lookup q = if q = p then some content else files.lookup q := by
  induction files with
  | nil =>
    rw [putFile, List.lookup_cons]
    by_cases hq : q = p <;> simp [hq, beq_eq_false_iff_ne.mpr]
  | cons f files ih =>
    obtain ⟨r, c⟩ := f
    by_cases hr : r = p
    · subst hr
      rw [putFile, if_pos rfl, List.lookup_cons, List.lookup_cons]
      by_cases hq : q = r <;> simp [hq, beq_eq_false_iff_ne.mpr]
    · rw [putFile, if_neg hr, List.lookup_cons, List.lookup_cons, ih]
      by_cases hq : q = r
      · simp [hq, hr]
      · simp [beq_eq_false_iff_ne.mpr hq]

theorem any_putFile (test : Place → Bool) (p : Place) (content : ByteArray)
    (files : List (Place × ByteArray)) :
    (putFile p content files).any (fun f => test f.1) =
      (files.any (fun f => test f.1) || test p) := by
  induction files with
  | nil => simp [putFile]
  | cons f files ih =>
    by_cases hf : f.1 = p
    · simp only [putFile, hf, if_true, List.any_cons]
      cases test p <;> simp
    · simp only [putFile, hf, if_false, List.any_cons, ih, Bool.or_assoc]

/-- A file makes directories of the places on the way to it. -/
theorem isDirectory_putFile (d : Disk) (p q : Place) (content : ByteArray) :
    isDirectory { d with files := putFile q content d.files } p =
      (d.isDirectory p || leadsTo p q) := by
  simp only [isDirectory, any_putFile]
  ac_rfl

/-! ## Writing -/

theorem write_eq_ok_iff {d d' : Disk} {path : Path} {content : String} :
    d.write path content = .ok d' ↔
      ∃ p, d.resolve path = .ok p ∧ d.isDirectory p = false ∧
        d' = { d with files := putFile p content.toUTF8 d.files } := by
  unfold write
  cases hp : d.resolve path with
  | error e => simp [bind, Except.bind]
  | ok p =>
    cases hdir : d.isDirectory p with
    | true => simp [bind, Except.bind, hdir]
    | false =>
      simp only [bind, Except.bind, hdir, Bool.false_eq_true, if_false, Except.ok.injEq]
      constructor
      · rintro rfl
        exact ⟨p, rfl, hdir, rfl⟩
      · rintro ⟨q, rfl, -, rfl⟩
        rfl

/-- The disks hold the same at every place but one. -/
def SameBut (p : Place) (d e : Disk) : Prop := ∀ q, q ≠ p → d.entry q = e.entry q

theorem SameBut.refl (p : Place) (d : Disk) : SameBut p d d := fun _ _ => rfl

theorem SameBut.symm {p : Place} {d e : Disk} (h : SameBut p d e) : SameBut p e d :=
  fun q hq => (h q hq).symm

theorem SameBut.trans {p : Place} {d e f : Disk} (h : SameBut p d e) (h' : SameBut p e f) :
    SameBut p d f :=
  fun q hq => (h q hq).trans (h' q hq)

section Written

variable {d d' : Disk} {path : Path} {content : String} (h : d.write path content = .ok d')
include h

theorem isDirectory_write (p : Place) : d'.isDirectory p = d.isDirectory p := by
  obtain ⟨q, hresolve, hq, rfl⟩ := write_eq_ok_iff.mp h
  obtain ⟨dir, name, -, hdir, rfl⟩ := exists_child_of_resolve hresolve hq
  -- Whatever is on the way to the written place was a directory before.
  have hway : leadsTo p ⟨dir.base, dir.names ++ [name]⟩ → d.isDirectory p := by
    intro hlead
    rcases leadsTo_child hlead with rfl | hlead
    · exact hdir
    · exact isDirectory_of_leadsTo hdir hlead
  rw [isDirectory_putFile]
  exact Bool.or_eq_left_iff_imp.mpr hway

theorem walk_write (p : Place) (names : List String) : d'.walk p names = d.walk p names := by
  induction names generalizing p with
  | nil => rfl
  | cons name names ih => rw [walk, walk, isDirectory_write h, ih]

/-- Every path leads to the same place as before. -/
theorem resolve_write (other : Path) : d'.resolve other = d.resolve other := by
  unfold resolve
  rw [walk_write h]

theorem read_write_self : d'.read path = .ok content.toUTF8 := by
  obtain ⟨p, hp, -, hd'⟩ := write_eq_ok_iff.mp h
  have hlookup : d'.files.lookup p = some content.toUTF8 := by simp [hd', lookup_putFile]
  simp [read, resolve_write h, hp, entry, hlookup, bind, Except.bind]

theorem read_write_other {other : Path} (hne : d.resolve other ≠ d.resolve path) :
    d'.read other = d.read other := by
  obtain ⟨p, hp, -, hd'⟩ := write_eq_ok_iff.mp h
  unfold read
  rw [resolve_write h]
  cases hq : d.resolve other with
  | error e => rfl
  | ok q =>
    have hqp : q ≠ p := fun heq => hne (by rw [hq, hp, heq])
    have hlookup : d'.files.lookup q = d.files.lookup q := by simp [hd', lookup_putFile, hqp]
    simp only [bind, Except.bind, entry, hlookup, isDirectory_write h]

theorem exists_getLast?_of_write : ∃ name, path.names.getLast? = some name := by
  obtain ⟨p, hp, hdir, -⟩ := write_eq_ok_iff.mp h
  obtain ⟨dir, name, hname, -⟩ := exists_child_of_resolve hp hdir
  exact ⟨name, hname⟩

/-- A path that ends with another name leads to another place. -/
theorem resolve_ne_of_getLast?_ne {other : Path}
    (hne : other.names.getLast? ≠ path.names.getLast?) : d.resolve other ≠ d.resolve path := by
  obtain ⟨p, hp, hdir, -⟩ := write_eq_ok_iff.mp h
  intro heq
  rw [← getLast?_of_resolve hp hdir, ← getLast?_of_resolve (heq.trans hp) hdir] at hne
  exact hne rfl

theorem entry_write_self : ∃ p, d.resolve path = .ok p ∧ d'.entry p = .file content.toUTF8 := by
  obtain ⟨p, hp, -, hd'⟩ := write_eq_ok_iff.mp h
  refine ⟨p, hp, ?_⟩
  simp [hd', entry, lookup_putFile]

/-- Nothing changes but the file at the end of the path. -/
theorem sameBut_write {p : Place} (hp : d.resolve path = .ok p) : SameBut p d d' := by
  intro q hq
  obtain ⟨p', hp', -, hd'⟩ := write_eq_ok_iff.mp h
  obtain rfl : p = p' := Except.ok.inj (hp.symm.trans hp')
  have hlookup : d'.files.lookup q = d.files.lookup q := by simp [hd', lookup_putFile, hq]
  rw [entry, entry, hlookup, isDirectory_write h]

/-- A file that was written can be written again. -/
theorem exists_write_again (next : String) : ∃ d'', d'.write path next = .ok d'' := by
  obtain ⟨p, hp, hdir, -⟩ := write_eq_ok_iff.mp h
  exact ⟨_, write_eq_ok_iff.mpr ⟨p, (resolve_write h path).trans hp,
    (isDirectory_write h p).trans hdir, rfl⟩⟩

end Written

end Disk

end LineScript
