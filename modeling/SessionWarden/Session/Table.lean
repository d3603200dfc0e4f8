import SessionWarden.Session.Record
/-!
# The table of records and the directory of accounts

Records are kept in the order of their insertion, and no two of them share an identifier. Each operation
of the table is one indivisible step; what an operation does to the table is said by its effect on the
list of records. A directory knows accounts by name; an account that is added takes the place of one of the
same name.
-/

namespace SessionWarden

/-- A table of records with distinct identifiers (the map of `MemoryTokenRepo`). -/
structure Table where
  records : List Record
  nodup_ids : (records.map Record.id).Nodup

namespace Table

def empty : Table := ⟨[], List.nodup_nil⟩

instance : Inhabited Table := ⟨empty⟩

theorem ext {s t : Table} (h : s.records = t.records) : s = t := by
  cases s
  cases t
  simp_all

def keep (t : Table) (p : Record → Bool) : Table :=
  ⟨t.records.filter p, t.nodup_ids.sublist ((List.filter_sublist (p := p)).map Record.id)⟩

def get (t : Table) (id : TokenId) : Option Record := t.records.find? (fun r => r.id == id)

def remove (t : Table) (id : TokenId) : Table := t.keep (fun r => r.id != id)

/-- Drops the record stored under an identifier if it satisfies a condition, and says whether it did (`remove_if`). -/
def removeIf (t : Table) (id : TokenId) (p : Record → Bool) : Bool × Table :=
  if (t.get id).any p then (true, t.remove id) else (false, t)

/-- Stores a record under its identifier, in place of any that was there. -/
def insert (t : Table) (r : Record) : Table where
  records := (t.remove r.id).records ++ [r]
  nodup_ids := by
    rw [List.map_append, List.map_singleton, List.nodup_append]
    refine ⟨(t.remove r.id).nodup_ids, by simp, ?_⟩
    intro a ha b hb hab
    obtain ⟨x, hx, rfl⟩ := List.mem_map.mp ha
    rw [List.mem_singleton.mp hb] at hab
    simp [remove, keep, hab] at hx

def ownedBy (t : Table) (user : UserId) : List Record := t.records.filter (fun r => r.user == user)

/-- Drops the records of a user (`retain`). -/
def removeOwnedBy (t : Table) (user : UserId) : Table := t.keep (fun r => r.user != user)

/-! ### Effects on the records -/

@[simp] theorem records_empty : empty.records = [] := rfl

@[simp] theorem records_keep (t : Table) (p : Record → Bool) : (t.keep p).records = t.records.filter p :=
  rfl

@[simp] theorem records_remove (t : Table) (id : TokenId) :
    (t.remove id).records = t.records.filter (fun r => r.id != id) := rfl

@[simp] theorem records_insert (t : Table) (r : Record) :
    (t.insert r).records = t.records.filter (fun x => x.id != r.id) ++ [r] := rfl

@[simp] theorem records_removeOwnedBy (t : Table) (user : UserId) :
    (t.removeOwnedBy user).records = t.records.filter (fun r => r.user != user) := rfl

theorem mem_remove {t : Table} {id : TokenId} {r : Record} :
    r ∈ (t.remove id).records ↔ r ∈ t.records ∧ r.id ≠ id := by
  simp

theorem mem_insert {t : Table} {r x : Record} :
    x ∈ (t.insert r).records ↔ x = r ∨ (x ∈ t.records ∧ x.id ≠ r.id) := by
  simp [or_comm]

theorem eq_of_mem_of_id_eq {t : Table} {r s : Record} (hr : r ∈ t.records) (hs : s ∈ t.records)
    (h : r.id = s.id) : r = s := by
  have hnd := t.nodup_ids
  generalize t.records = l at hr hs hnd
  induction l with
  | nil => cases hr
  | cons x xs ih =>
    rw [List.map_cons, List.nodup_cons] at hnd
    rcases List.mem_cons.mp hr with hrx | hrx
    · rcases List.mem_cons.mp hs with hsx | hsx
      · rw [hrx, hsx]
      · exact absurd (List.mem_map.mpr ⟨s, hsx, by rw [← h, hrx]⟩) hnd.1
    · rcases List.mem_cons.mp hs with hsx | hsx
      · exact absurd (List.mem_map.mpr ⟨r, hrx, by rw [h, hsx]⟩) hnd.1
      · exact ih hrx hsx hnd.2

theorem get_eq_some_iff {t : Table} {id : TokenId} {r : Record} :
    t.get id = some r ↔ r ∈ t.records ∧ r.id = id := by
  constructor
  · intro h
    exact ⟨List.mem_of_find?_eq_some h, by simpa using List.find?_some h⟩
  · rintro ⟨hmem, rfl⟩
    cases hg : t.get r.id with
    | none =>
      have := List.find?_eq_none.mp hg r hmem
      simp at this
    | some s =>
      have hs : s ∈ t.records ∧ s.id = r.id :=
        ⟨List.mem_of_find?_eq_some hg, by simpa using List.find?_some hg⟩
      rw [eq_of_mem_of_id_eq hs.1 hmem hs.2]

theorem get_eq_none_iff {t : Table} {id : TokenId} :
    t.get id = none ↔ ∀ r ∈ t.records, r.id ≠ id := by
  simp [get]

end Table

/-! ### Accounts -/

/-- An account (`UserCredentials`): its user, the name it is known by and the written hash of its password. -/
structure Account where
  user : UserId
  name : String
  passwordHash : String
deriving DecidableEq

/-- Accounts, the one that was added last in front (`MemoryUserRepo`). -/
structure Directory where
  accounts : List Account
deriving DecidableEq, Inhabited

namespace Directory

def empty : Directory := ⟨[]⟩

def add (d : Directory) (a : Account) : Directory := ⟨a :: d.accounts⟩

def find? (d : Directory) (name : String) : Option Account := d.accounts.find? fun a => a.name == name

theorem find?_add (d : Directory) (a : Account) (name : String) :
    (d.add a).find? name = if a.name = name then some a else d.find? name := by
  by_cases h : a.name = name <;> simp [find?, add, h]

end Directory

end SessionWarden
