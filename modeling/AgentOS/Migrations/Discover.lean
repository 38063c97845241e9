import AgentOS.Python.Strings
import Mathlib.Data.List.Sort
import Mathlib.Data.String.Basic
import AgentOS.Lib.Fold

/-!
# Discovering migrations

The directory of `database/migrate.py`: the names of its files, the batches of a text, and `discover_migrations`.  The
order in which migrations are discovered depends on the names of the files alone (`discoveryOrder_congr`).
-/

namespace AgentOS.Migrations

/-! ### Texts -/

/-- A space or a tab. -/
def isBlankOrTab (c : Char) : Bool := c = ' ' || c = '\t'

/-- `_GO_SEPARATOR_RE` on one line. -/
def isGoLine (line : List Char) : Bool :=
  match (line.dropWhile isBlankOrTab).rdropWhile isBlankOrTab with
  | [g, o] => (g = 'G' || g = 'g') && (o = 'O' || o = 'o')
  | _ => false

/-- `split_batches`. -/
def splitBatches (text : String) : List String :=
  (((text.toList.splitOn '\n').splitOnP isGoLine).map fun lines =>
    strip (String.ofList (List.intercalate ['\n'] lines))).filter fun batch => batch ≠ ""

/-- A boundary of `str.splitlines`. -/
def isLineBoundary (c : Char) : Bool :=
  let n := c.toNat
  (0x0A ≤ n && n ≤ 0x0D) || (0x1C ≤ n && n ≤ 0x1E) || n == 0x85 || n == 0x2028 || n == 0x2029

/-- A letter of a pattern matches, where the case is ignored. -/
def matchesLetter (letter c : Char) : Bool :=
  c = letter || c = letter.toUpper || letter = 'i' && (c = 'ı' || c = 'İ') || letter = 's' && c = 'ſ'

/-- `_NO_TRANSACTION_DIRECTIVE_RE` on a stripped line. -/
def isNoTransactionDirective : List Char → Bool
  | '-' :: '-' :: rest =>
    let word := rest.dropWhile isspace
    word.length = "migrate:no-transaction".length &&
      ("migrate:no-transaction".toList.zip word).all fun pair => matchesLetter pair.1 pair.2
  | _ => false

/-- The loop of `_parses_no_transaction_directive`. -/
def scanHeader : List (List Char) → Bool
  | [] => false
  | line :: lines =>
    let stripped := (strip (String.ofList line)).toList
    if stripped = [] then scanHeader lines
    else if isGoLine stripped then scanHeader lines
    else if ['-', '-'].isPrefixOf stripped then
      if isNoTransactionDirective stripped then true else scanHeader lines
    else false

/-- `_parses_no_transaction_directive`.  A boundary more, as in CR LF, makes a blank line, which is skipped. -/
def parsesNoTransactionDirective (text : String) : Bool := scanHeader (text.toList.splitOnP isLineBoundary)

variable (sha256 : List UInt8 → String)

/-- `compute_checksum`. -/
def computeChecksum (text : String) : String := sha256 (encode text)

/-! ### Files -/

/-- A file that `migrations_dir.glob("*.sql")` yields, with the text that `read_text` returns. -/
structure MigrationFile where
  fileName : String
  text : String

structure Migration where
  number : Nat
  name : String
  checksum : String
  text : String
  noTransaction : Bool

inductive DiscoveryError where
  | badName (fileName : String)
  | duplicateNumber (number : Nat) (first second : String)

/-- The number in front of a stem, where `_MIGRATION_FILENAME_RE` matches.  `decimal` is the value of a decimal
digit. -/
def numberOf (decimal : Char → Option Nat) (stem : List Char) : Option Nat :=
  let digits := stem.takeWhile fun c => (decimal c).isSome
  match digits, stem.drop digits.length with
  | _ :: _, '_' :: c :: cs =>
    if (c :: cs).all fun c => c.isAlphanum || c = '_' then
      some (digits.foldl (fun n d => 10 * n + (decimal d).getD 0) 0)
    else none
  | _, _ => none

/-- `_MIGRATION_FILENAME_RE`: the number and the stem. -/
def parseFileName (decimal : Char → Option Nat) (fileName : String) : Option (Nat × String) :=
  if ".sql".toList.isSuffixOf fileName.toList then
    let stem := fileName.toList.take (fileName.length - 4)
    (numberOf decimal stem).map fun number => (number, String.ofList stem)
  else none

variable (decimal : Char → Option Nat)

/-- One round of the loop of `discover_migrations`. -/
def discoverNext (migrations : List Migration) (file : MigrationFile) : Except DiscoveryError (List Migration) :=
  match parseFileName decimal file.fileName with
  | none => .error (.badName file.fileName)
  | some (number, name) => match migrations.find? fun m => m.number = number with
    | some first => .error (.duplicateNumber number first.name name)
    | none => .ok (migrations ++
        [⟨number, name, computeChecksum sha256 file.text, file.text, parsesNoTransactionDirective file.text⟩])

/-- `discover_migrations`. -/
def discoverMigrations (files : List MigrationFile) : Except DiscoveryError (List Migration) :=
  ((files.mergeSort fun a b => a.fileName ≤ b.fileName).foldlM (discoverNext sha256 decimal) []).map fun migrations =>
    migrations.mergeSort fun a b => a.number ≤ b.number

/-- The names of the migrations of a directory, in the order of their discovery; none where `discover_migrations`
raises. -/
def discoveryOrder (files : List MigrationFile) : List String :=
  match discoverMigrations sha256 decimal files with
  | .ok migrations => migrations.map Migration.name
  | .error _ => []

/-! ### The order of discovery -/

variable {sha256 decimal} {files files' : List MigrationFile} {migrations migrations' : List Migration}

private theorem numberOf_name {fileName name : String} {number : Nat}
    (h : parseFileName decimal fileName = some (number, name)) : numberOf decimal name.toList = some number := by
  unfold parseFileName at h
  split at h
  case isFalse => cases h
  case isTrue =>
    obtain ⟨n, hn, heq⟩ := Option.map_eq_some_iff.1 h
    obtain ⟨rfl, rfl⟩ := Prod.mk.inj heq
    rw [String.toList_ofList]
    exact hn

/-- What the name of a file says of a migration. -/
private def key (m : Migration) : Nat × String := (m.number, m.name)

private theorem find_congr (h : migrations.map key = migrations'.map key) (number : Nat) :
    (migrations.find? fun m => m.number = number).map key = (migrations'.find? fun m => m.number = number).map key := by
  have hmap : ∀ ms : List Migration, (ms.find? fun m => m.number = number).map key =
      (ms.map key).find? fun pair => pair.1 = number := by
    intro ms
    rw [List.find?_map]
    rfl
  rw [hmap, hmap, h]

private theorem foldlM_congr (sha256 : List UInt8 → String) (decimal : Char → Option Nat)
    (hfiles : files.map MigrationFile.fileName = files'.map MigrationFile.fileName)
    (hkeys : migrations.map key = migrations'.map key) :
    (files.foldlM (discoverNext sha256 decimal) migrations).map (List.map key) =
      (files'.foldlM (discoverNext sha256 decimal) migrations').map (List.map key) := by
  induction files generalizing files' migrations migrations' with
  | nil =>
    obtain rfl := List.map_eq_nil_iff.1 hfiles.symm
    exact congrArg Except.ok hkeys
  | cons file files ih =>
    cases files' with
    | nil => cases hfiles
    | cons file' files' =>
      obtain ⟨hname, hfiles⟩ := List.cons.inj hfiles
      have hfind := find_congr hkeys
      rw [List.foldlM_cons, List.foldlM_cons]
      unfold discoverNext
      rw [← hname]
      cases hparse : parseFileName decimal file.fileName with
      | none => rfl
      | some pair =>
        obtain ⟨number, name⟩ := pair
        dsimp only
        have hnumber := hfind number
        cases hfirst : migrations.find? fun m => m.number = number with
        | none =>
          rw [hfirst] at hnumber
          rw [Option.map_eq_none_iff.1 hnumber.symm]
          refine ih hfiles ?_
          rw [List.map_append, List.map_append, hkeys]
          rfl
        | some first =>
          rw [hfirst] at hnumber
          obtain ⟨first', hfirst', hkey⟩ := Option.map_eq_some_iff.1 hnumber.symm
          have hfirstName : first'.name = first.name := congrArg Prod.snd hkey
          rw [hfirst']
          show Except.error (DiscoveryError.duplicateNumber number first.name name) =
            Except.error (DiscoveryError.duplicateNumber number first'.name name)
          rw [hfirstName]

private theorem map_fileName_sorted (h : (files.map MigrationFile.fileName).Perm (files'.map MigrationFile.fileName)) :
    (files.mergeSort fun a b => a.fileName ≤ b.fileName).map MigrationFile.fileName =
      (files'.mergeSort fun a b => a.fileName ≤ b.fileName).map MigrationFile.fileName := by
  rw [List.map_mergeSort (s := fun a b => decide (a ≤ b)) fun _ _ _ _ => rfl,
    List.map_mergeSort (s := fun a b => decide (a ≤ b)) fun _ _ _ _ => rfl]
  have hsorted : ∀ names : List String, (names.mergeSort fun a b => decide (a ≤ b)).Pairwise (· ≤ ·) := by
    intro names
    refine (List.pairwise_mergeSort ?_ ?_ names).imp fun h => of_decide_eq_true h
    · exact fun a b c hab hbc => decide_eq_true ((of_decide_eq_true hab).trans (of_decide_eq_true hbc))
    · intro a b
      simpa using le_total a b
  exact List.Perm.eq_of_pairwise (fun a b _ _ => le_antisymm) (hsorted _) (hsorted _)
    ((List.mergeSort_perm _ _).trans (h.trans (List.mergeSort_perm _ _).symm))

private theorem discoveryOrder_eq (sha256 : List UInt8 → String) (decimal : Char → Option Nat)
    (files : List MigrationFile) : discoveryOrder sha256 decimal files =
      match ((files.mergeSort fun a b => a.fileName ≤ b.fileName).foldlM (discoverNext sha256 decimal) []).map
        (List.map key) with
      | .ok keys => (keys.mergeSort fun a b => a.1 ≤ b.1).map Prod.snd
      | .error _ => [] := by
  unfold discoveryOrder discoverMigrations
  cases (files.mergeSort fun a b => decide (a.fileName ≤ b.fileName)).foldlM (discoverNext sha256 decimal) [] with
  | error e => rfl
  | ok migrations =>
    show (migrations.mergeSort _).map Migration.name = ((migrations.map key).mergeSort _).map Prod.snd
    rw [← List.map_mergeSort (r := fun a b => decide (a.number ≤ b.number)) fun _ _ _ _ => rfl, List.map_map]
    rfl

/-- The order of discovery depends on the names of the files alone. -/
theorem discoveryOrder_congr (sha256 : List UInt8 → String) (decimal : Char → Option Nat)
    (h : (files.map MigrationFile.fileName).Perm (files'.map MigrationFile.fileName)) :
    discoveryOrder sha256 decimal files = discoveryOrder sha256 decimal files' := by
  rw [discoveryOrder_eq, discoveryOrder_eq, foldlM_congr sha256 decimal (map_fileName_sorted h) rfl]

/-- What the loop has collected: numbers are distinct, a name begins with its number, and the text is that of a file. -/
private structure Collected (sha256 : List UInt8 → String) (decimal : Char → Option Nat) (files : List MigrationFile)
    (migrations : List Migration) : Prop where
  distinct : (migrations.map Migration.number).Nodup
  number : ∀ m ∈ migrations, numberOf decimal m.name.toList = some m.number
  text : ∀ m ∈ migrations, ∃ file ∈ files, m.text = file.text ∧ m.checksum = computeChecksum sha256 file.text ∧
    m.noTransaction = parsesNoTransactionDirective file.text

private theorem collected_discoverNext (h : Collected sha256 decimal files migrations) {file : MigrationFile}
    (hfile : file ∈ files) (hnext : discoverNext sha256 decimal migrations file = .ok migrations') :
    Collected sha256 decimal files migrations' := by
  unfold discoverNext at hnext
  split at hnext
  · cases hnext
  case h_2 number name hparse =>
    split at hnext
    · cases hnext
    case h_2 hfresh =>
      obtain rfl := Except.ok.inj hnext
      refine ⟨?_, fun m hm => ?_, fun m hm => ?_⟩
      · rw [List.map_append]
        refine h.distinct.append (List.nodup_singleton _) (List.disjoint_singleton.2 fun hmem => ?_)
        obtain ⟨m, hm, hnumber⟩ := List.mem_map.1 hmem
        exact absurd (decide_eq_true hnumber) (List.find?_eq_none.1 hfresh m hm)
      · rcases List.mem_append.1 hm with hm | hm
        · exact h.number m hm
        · obtain rfl := List.mem_singleton.1 hm
          exact numberOf_name hparse
      · rcases List.mem_append.1 hm with hm | hm
        · exact h.text m hm
        · obtain rfl := List.mem_singleton.1 hm
          exact ⟨file, hfile, rfl, rfl, rfl⟩

/-- What `discover_migrations` returns: distinct names in the order of discovery, each with the text of a file. -/
theorem of_discoverMigrations (h : discoverMigrations sha256 decimal files = .ok migrations) :
    migrations.map Migration.name = discoveryOrder sha256 decimal files ∧ (migrations.map Migration.name).Nodup ∧
      ∀ m ∈ migrations, ∃ file ∈ files, m.text = file.text ∧ m.checksum = computeChecksum sha256 file.text ∧
        m.noTransaction = parsesNoTransactionDirective file.text := by
  refine ⟨?_, ?_⟩
  · unfold discoveryOrder
    rw [h]
  · unfold discoverMigrations at h
    cases hfold : (files.mergeSort fun a b => a.fileName ≤ b.fileName).foldlM (discoverNext sha256 decimal) [] with
    | error e =>
      rw [hfold] at h
      cases h
    | ok collected =>
      rw [hfold] at h
      obtain rfl := Except.ok.inj h
      have hstart : Collected sha256 decimal files [] := ⟨List.nodup_nil, by simp, by simp⟩
      have hcollected : Collected sha256 decimal files collected :=
        Except.foldlM_invariant (I := Collected sha256 decimal files) hstart
          (fun file hfile _ _ hstate hnext => collected_discoverNext hstate (List.mem_mergeSort.1 hfile) hnext) hfold
      have hnames : (collected.map Migration.name).Nodup := by
        -- names that are the same have the same number
        refine List.Nodup.of_map (fun name : String => numberOf decimal name.toList) ?_
        rw [List.map_map, List.map_congr_left (g := fun m => some m.number) hcollected.number]
        have hsome := hcollected.distinct.map (Option.some_injective _)
        rw [List.map_map] at hsome
        exact hsome
      exact ⟨((List.mergeSort_perm _ _).map _).nodup_iff.2 hnames,
        fun m hm => hcollected.text m (List.mem_mergeSort.1 hm)⟩

end AgentOS.Migrations
