import Eunha.Relational

/-!
# Merging an account into another

Two accounts that turn out to be one actor are merged: what refers to the duplicate is made
to refer to the other, column by column, the whole table at once or else row by row, and
the duplicate is deleted, with what still refers to it.
-/
namespace Eunha.AccountMerging
open Tables Relational

def mergedColumns : List (String × String) :=
  [("statuses", "account_id"),
    ("status_pins", "account_id"),
    ("media_attachments", "account_id"),
    ("polls", "account_id"),
    ("reports", "account_id"),
    ("tombstones", "account_id"),
    ("favourites", "account_id"),
    ("follows", "account_id"),
    ("follow_requests", "account_id"),
    ("blocks", "account_id"),
    ("mutes", "account_id"),
    ("account_moderation_notes", "account_id"),
    ("account_pins", "account_id"),
    ("account_stats", "account_id"),
    ("list_accounts", "account_id"),
    ("poll_votes", "account_id"),
    ("mentions", "account_id"),
    ("account_deletion_requests", "account_id"),
    ("account_notes", "account_id"),
    ("follow_recommendation_suppressions", "account_id"),
    ("appeals", "account_id"),
    ("tag_follows", "account_id"),
    ("quotes", "account_id"),
    ("collections", "account_id"),
    ("collection_items", "account_id"),
    ("notifications", "from_account_id"),
    ("notification_permissions", "from_account_id"),
    ("notification_requests", "from_account_id"),
    ("follows", "target_account_id"),
    ("follow_requests", "target_account_id"),
    ("blocks", "target_account_id"),
    ("mutes", "target_account_id"),
    ("account_moderation_notes", "target_account_id"),
    ("account_pins", "target_account_id"),
    ("account_notes", "target_account_id"),
    ("account_warnings", "target_account_id"),
    ("canonical_email_blocks", "reference_account_id"),
    ("severed_relationships", "local_account_id"),
    ("severed_relationships", "remote_account_id"),
    ("quotes", "quoted_account_id")]

/-- Which statements fail for a reason of their own: a table's update, the selection of what
is left, the update of a row, the last deletion. -/
structure Failures where
  whole : String → String → Bool
  select : String → String → Bool
  row : String → String → ℕ → Bool
  deletion : Bool

section
variable {schema : Schema}

/-- `UPDATE {table} SET {column} = $1 WHERE {column} = $2` -/
def moveColumn (db : Db schema) (table column : String) (account duplicate : ℕ) :
    Option (Db schema) :=
  db.update? fun r =>
    if r.table = table && r.value column = some duplicate then r.set column account else r

/-- `UPDATE {table} SET {column} = $1 WHERE id = $2` -/
def moveRow (db : Db schema) (table column : String) (account id : ℕ) : Option (Db schema) :=
  db.update? fun r => if r.table = table && r.id = id then r.set column account else r

/-- `SELECT id FROM {table} WHERE {column} = $1` -/
def idsOf (db : Db schema) (table column : String) (duplicate : ℕ) : List ℕ :=
  (db.rows.filter fun r => r.table = table && r.value column = some duplicate).map Row.id

def moveRowOr (fails : Failures) (table column : String) (account : ℕ) (db : Db schema) (id : ℕ) :
    Db schema :=
  if fails.row table column id then db else (moveRow db table column account id).getD db

/-- One column of `MERGED_COLUMNS`. -/
def mergeColumn (fails : Failures) (account duplicate : ℕ) (db : Db schema)
    (merged : String × String) : Option (Db schema) :=
  let (table, column) := merged
  match if fails.whole table column then none
    else moveColumn db table column account duplicate with
  | some moved => some moved
  | none =>
      if fails.select table column then none
      else some ((idsOf db table column duplicate).foldl
        (moveRowOr fails table column account) db)

def isAccount (id : ℕ) (r : Row) : Bool := r.table = "accounts" && r.id = id

/-- `merge_with`, which is none where it is an error. -/
def mergeWith (fails : Failures) (db : Db schema) (account duplicate : ℕ) : Option (Db schema) :=
  (mergedColumns.foldlM (mergeColumn fails account duplicate) db).bind fun db =>
    if fails.deletion then none else delete db (isAccount duplicate)

end
end Eunha.AccountMerging
