import AssetDiscovery.Database
import AssetDiscovery.Fqdn

/-!
# Users

`app/models/user.py` and the table behind `app/repositories/user.py`. As for the other tables, the
constraints are fields: a state with two users of one address cannot be built, and the insertion of
a second one fails (`Users.write`).

`created_at` and `updated_at` are left out; nothing reads them. The widths of the columns are, too:
the schemas of the requests bound the texts, so that they fit.
-/

set_option autoImplicit false

namespace AssetDiscovery

/-- `UserRole`. -/
inductive UserRole where
  | admin
  | analyst
  | viewer
  deriving DecidableEq, Repr

/-- `role.value`. -/
def UserRole.value : UserRole → String
  | admin => "ADMIN"
  | analyst => "ANALYST"
  | viewer => "VIEWER"

/-- A row of `users`. -/
structure User where
  id : Id
  email : String
  passwordHash : String
  fullName : String
  role : UserRole
  isActive : Bool
  deriving DecidableEq, Repr

/-- `email.lower().strip()`. -/
def normalizeEmail (u : Unicode) (email : String) : String :=
  String.ofList (u.strip (u.lower email.toList))

/-- A state of the table of users that satisfies the schema. -/
structure Users where
  table : Table User.id
  /-- `ix_users_email` is unique. -/
  email_unique : ∀ row ∈ table, ∀ row' ∈ table, row.email = row'.email → row = row'

namespace Users

/-- The table after the migrations. -/
def empty : Users where
  table := .empty
  email_unique := by simp

variable (users : Users)

/-- `SELECT ... FROM users WHERE id = :id`. -/
def byId (id : Id) : Option User :=
  users.table.get id

/-- `SELECT ... FROM users WHERE email = :email`. -/
def byEmail (email : String) : Option User :=
  users.table.rows.find? fun row ↦ row.email = email

/-- `SELECT ... FROM users WHERE role = 'ADMIN' LIMIT 1`, which is only tested for `None`. -/
def existingAdmin : Option User :=
  users.table.rows.find? fun row ↦ row.role = .admin

/-- A number above every stored id. -/
def idBound : ℕ :=
  (users.table.rows.map (·.id + 1)).foldr max 0

/-- Insert a user with a new id and a new address. -/
def insert (row : User) (hid : users.table.get row.id = none)
    (hemail : ∀ row' ∈ users.table, row'.email ≠ row.email) : Users where
  table := users.table.insert row hid
  email_unique := by
    intro r hr r' hr' h
    rcases Table.mem_insert.1 hr with hm | rfl <;> rcases Table.mem_insert.1 hr' with hm' | rfl
    · exact users.email_unique r hm r' hm' h
    · exact absurd h (hemail r hm)
    · exact absurd h.symm (hemail r' hm')
    · rfl

/-- `INSERT INTO users`. -/
def write (row : User) : Except DbError Users :=
  if h : users.table.get row.id = none ∧ ∀ row' ∈ users.table.rows, row'.email ≠ row.email then
    .ok (users.insert row h.1 h.2)
  else .error .integrity

variable {users}

/-- A user that is found by id is stored under it. -/
theorem mem_of_byId {id : Id} {row : User} (h : users.byId id = some row) :
    row ∈ users.table ∧ row.id = id :=
  Table.get_eq_some_iff.1 h

/-- A user that is found by address has it. -/
theorem mem_of_byEmail {email : String} {row : User} (h : users.byEmail email = some row) :
    row ∈ users.table ∧ row.email = email :=
  ⟨List.mem_of_find?_eq_some h, by simpa using List.find?_some h⟩

/-- An address that finds nobody is that of no user. -/
theorem byEmail_eq_none_iff {email : String} :
    users.byEmail email = none ↔ ∀ row ∈ users.table, row.email ≠ email := by
  simp [byEmail, ← Table.mem_rows]

/-- Each user is found by the address. -/
theorem byEmail_of_mem {row : User} (h : row ∈ users.table) :
    users.byEmail row.email = some row := by
  cases hfound : users.byEmail row.email with
  | none => exact absurd rfl (byEmail_eq_none_iff.1 hfound row h)
  | some row' =>
    obtain ⟨hmem, hemail⟩ := mem_of_byEmail hfound
    rw [users.email_unique row' hmem row h hemail]

/-- An insertion of a new id fails exactly if the address is taken. -/
theorem write_of_fresh {row : User} (hid : users.table.get row.id = none) :
    (users.byEmail row.email = none ∧ ∃ users', users.write row = .ok users' ∧
      (∀ r, r ∈ users'.table ↔ r ∈ users.table ∨ r = row)) ∨
    (users.byEmail row.email ≠ none ∧ users.write row = .error .integrity) := by
  by_cases hemail : users.byEmail row.email = none
  · refine Or.inl ⟨hemail, _, dif_pos ⟨hid, byEmail_eq_none_iff.1 hemail⟩, fun r ↦ ?_⟩
    exact Table.mem_insert (h := hid)
  · exact Or.inr ⟨hemail, dif_neg fun h ↦ hemail (byEmail_eq_none_iff.2 h.2)⟩

/-- The users after an insertion. -/
theorem mem_of_write {users' : Users} {row : User} (h : users.write row = .ok users') (r : User) :
    r ∈ users'.table ↔ r ∈ users.table ∨ r = row := by
  rw [write] at h
  split at h
  · next hfresh =>
    obtain rfl := Except.ok.inj h
    exact Table.mem_insert (h := hfresh.1)
  · exact absurd h (by simp)

end Users

end AssetDiscovery
