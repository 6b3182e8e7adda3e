import Ptptl.Ptp.StoreRoundTrip

set_option autoImplicit false

/-! # Loading a saved store with other passwords -/

namespace Ptp

/-- What the passwords protect is not read without them. -/
structure Pkcs12.Guarded {pki : Pki} (pkcs12 : Pkcs12 pki) : Prop where
  mac : ∀ archive macpasswd other,
    pkcs12.verifyMac (pkcs12.setMac archive macpasswd) other = true → other = macpasswd
  encrypted : ∀ bags passwd other, other ≠ some passwd →
    (pkcs12.unpack (pkcs12.packEncrypted passwd bags) other).getD [] = []

namespace Store

variable {pki : Pki} {pkcs12 : Pkcs12 pki}

/-- A password opens an archive that was saved with it, and one that was saved without any. -/
def Opens (passwd other : Option CString) : Prop := passwd = none ∨ other = passwd

theorem reloaded_length (list : List (Entry pki)) : (reloaded list).length = list.length := by
  induction list with
  | nil => rfl
  | cons entry rest ih => rw [reloaded, List.length_cons, List.length_cons, ih]

theorem safeBags_opened (lawful : pkcs12.Lawful) (list : List (Entry pki))
    {passwd other : Option CString} (opens : Opens passwd other) :
    safeBags other (exportSafe list passwd : pkcs12.Safe) = exportBags list := by
  cases passwd with
  | none => simp only [safeBags, exportSafe, lawful.data, Option.getD_some]
  | some passwd =>
    have same : other = some passwd := opens.resolve_left (Option.some_ne_none passwd)
    rw [same, safeBags_exportSafe lawful]

theorem safeBags_closed (guarded : pkcs12.Guarded) (list : List (Entry pki))
    {passwd other : Option CString} (closed : ¬ Opens passwd other) :
    safeBags other (exportSafe list passwd : pkcs12.Safe) = [] := by
  rw [Opens, not_or] at closed
  cases passwd with
  | none => exact absurd rfl closed.1
  | some passwd => exact guarded.encrypted _ passwd other closed.2

theorem importFile_macless (lawful : pkcs12.Lawful) (guarded : pkcs12.Guarded)
    (list : List (Entry pki)) (passwd other : Option CString) {macpasswd othermac : Option CString}
    (differ : othermac ≠ macpasswd) :
    importFile (exportFile list passwd macpasswd : pkcs12.File) other othermac [] =
      some (-1, []) := by
  have refused : ¬ pkcs12.verifyMac
      (pkcs12.setMac (pkcs12.packAuthsafes [exportSafe list passwd]) macpasswd) othermac = true :=
    fun verified => differ (guarded.mac _ _ _ verified)
  simp only [importFile, exportFile, lawful.file]
  rw [if_neg refused]

theorem importFile_closed (lawful : pkcs12.Lawful) (guarded : pkcs12.Guarded)
    (list : List (Entry pki)) {passwd other : Option CString} (macpasswd : Option CString)
    (closed : ¬ Opens passwd other) :
    importFile (exportFile list passwd macpasswd : pkcs12.File) other macpasswd [] =
      some (0, []) := by
  simp only [importFile, exportFile, lawful.file, lawful.mac, if_true, lawful.authsafes,
    importSafes_eq, List.all_cons, List.all_nil, List.flatMap_cons, List.flatMap_nil,
    safeBags_closed guarded list closed]
  rfl

theorem importFile_opened (lawful : pkcs12.Lawful) (list : List (Entry pki))
    {passwd other : Option CString} (macpasswd : Option CString) (opens : Opens passwd other) :
    importFile (exportFile list passwd macpasswd : pkcs12.File) other macpasswd [] =
      if ∀ entry ∈ list, entry.friendly ≠ some emptyName then some (0, reloaded list)
      else none := by
  simp only [importFile, exportFile, lawful.file, lawful.mac, if_true, lawful.authsafes,
    importSafes_eq, List.all_cons, List.all_nil, List.flatMap_cons, List.flatMap_nil,
    safeBags_opened lawful list opens, Bool.and_true, List.append_nil, List.nil_append,
    readable_exportBags, decide_eq_true_eq]
  split
  next named =>
    rw [yields_exportBags other named]
    rfl
  next => rfl

def reopen (store : Store pkcs12) (passwd macpasswd : Option CString)
    (entries : List (Entry pki)) : Store pkcs12 :=
  { store.save.2 with passwd := passwd, macpasswd := macpasswd, entries := entries }

/-- `Load` says whether it has read what was saved. -/
structure LoadReports (store : Store pkcs12) (passwd macpasswd : Option CString)
    (entries : List (Entry pki)) : Prop where
  complete : ∃ status copy, (store.reopen passwd macpasswd entries).load = some (status, copy) ∧
    (status = 0 → copy.entries.length = store.entries.length)
  refuses : ¬ Opens store.passwd passwd ∨ macpasswd ≠ store.macpasswd →
    ∃ copy, (store.reopen passwd macpasswd entries).load = some (-1, copy)

theorem reopen_load {store : Store pkcs12} (path : store.path = true)
    (passwd macpasswd : Option CString) (entries : List (Entry pki)) :
    (store.reopen passwd macpasswd entries).load =
      (importFile (exportFile store.entries store.passwd store.macpasswd : pkcs12.File) passwd
        macpasswd []).map fun result =>
          (result.1, { store.reopen passwd macpasswd entries with entries := result.2 }) := by
  simp only [load, reopen, save, path, if_true]
  cases importFile (exportFile store.entries store.passwd store.macpasswd : pkcs12.File) passwd
    macpasswd [] <;> rfl

theorem loadReports_iff (lawful : pkcs12.Lawful) (guarded : pkcs12.Guarded) {store : Store pkcs12}
    (path : store.path = true) (passwd macpasswd : Option CString) (entries : List (Entry pki)) :
    LoadReports store passwd macpasswd entries ↔
      macpasswd ≠ store.macpasswd ∨ Opens store.passwd passwd ∧
        ∀ entry ∈ store.entries, entry.friendly ≠ some emptyName := by
  by_cases same : macpasswd = store.macpasswd
  next =>
    subst same
    by_cases opens : Opens store.passwd passwd
    next =>
      have loaded := reopen_load path passwd store.macpasswd entries
      rw [importFile_opened lawful store.entries store.macpasswd opens] at loaded
      constructor
      next =>
        intro reports
        obtain ⟨status, copy, defined, -⟩ := reports.complete
        rw [loaded] at defined
        split at defined
        next named => exact .inr ⟨opens, named⟩
        next => cases defined
      next =>
        intro condition
        obtain ⟨-, named⟩ := condition.resolve_left (not_not_intro rfl)
        rw [if_pos named, Option.map_some] at loaded
        constructor
        next => exact ⟨_, _, loaded, fun _ => reloaded_length store.entries⟩
        next =>
          intro wrong
          rcases wrong with closed | differ
          · exact absurd opens closed
          · exact absurd rfl differ
    next =>
      have loaded := reopen_load path passwd store.macpasswd entries
      rw [importFile_closed lawful guarded store.entries store.macpasswd opens] at loaded
      constructor
      next =>
        intro reports
        obtain ⟨copy, refused⟩ := reports.refuses (.inl opens)
        rw [loaded] at refused
        cases refused
      next =>
        intro condition
        rcases condition with differ | ⟨opened, -⟩
        · exact absurd rfl differ
        · exact absurd opened opens
  next =>
    have loaded := reopen_load path passwd macpasswd entries
    rw [importFile_macless lawful guarded store.entries store.passwd passwd same] at loaded
    constructor
    next =>
      intro _
      exact .inl same
    next =>
      intro _
      exact ⟨⟨_, _, loaded, fun zero => by cases zero⟩, fun _ => ⟨_, loaded⟩⟩

theorem plainPkcs12_guarded (pki : Pki) : (plainPkcs12 pki).Guarded where
  mac archive macpasswd other verified := by
    simp only [plainPkcs12, decide_eq_true_eq, Option.some.injEq] at verified
    exact verified.symm
  encrypted bags passwd other differ := by
    have closed : ¬ some passwd = other := fun same => differ same.symm
    simp [plainPkcs12, closed]

def doeStore : Store (plainPkcs12 plainPki) where
  path := true
  medium := none
  passwd := some doe
  macpasswd := some doe
  entries := johnDoe true

theorem loadReports_doe : LoadReports doeStore (some doe) (some doe) [] ↔
    some doe ≠ doeStore.macpasswd ∨ Opens doeStore.passwd (some doe) ∧
      ∀ entry ∈ doeStore.entries, entry.friendly ≠ some emptyName :=
  loadReports_iff (plainPkcs12_lawful plainPki) (plainPkcs12_guarded plainPki) rfl _ _ _

/-- With the wrong archive password nothing is read, and `Load` returns 0. -/
theorem load_unreported :
    ¬ LoadReports doeStore none (some doe) [] ∧
      ∃ copy, (doeStore.reopen none (some doe) []).load = some (0, copy) ∧ copy.entries = [] := by
  have closed : ¬ Opens (some doe) none := by
    rintro (absent | same)
    · cases absent
    · cases same
  have loaded := @reopen_load _ _ doeStore rfl none (some doe) []
  have empty := importFile_closed (plainPkcs12_lawful plainPki) (plainPkcs12_guarded plainPki)
    (johnDoe true) (some doe) closed
  simp only [doeStore] at loaded
  rw [empty] at loaded
  constructor
  next =>
    intro reports
    obtain ⟨copy, refused⟩ := reports.refuses (.inl closed)
    rw [doeStore, loaded] at refused
    cases refused
  next => exact ⟨_, loaded, rfl⟩

end Store

end Ptp
