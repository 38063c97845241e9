import AgentOS.Hub.FakeStore
import AgentOS.Lib.Run

/-!
# The repositories of the two stores

`upsert_repository` is called on `SqlStore` and on `FakeStore` with the same arguments.  `SqlStore` finds a checkout by
its natural key `(machine_id, repo_root)`, tries an `INSERT`, and sorts out what an integrity error meant; `FakeStore`
keeps the natural keys in an index of its own, `_repo_natural`.

* `Agree`: both hold the same rows, and the index is the inverse of the table.
* `Written`: what a call that is not refused does to both stores is to write one row.
* `repositories_agree`: every sequence of valid calls is answered alike and leaves the stores in agreement.
-/

namespace AgentOS

open SqlStore

/-- The arguments of `upsert_repository`; `now` is the time of the server. -/
structure RepositoryUpsert where
  now : Int
  repositoryId : String
  machineId : String
  repoRoot : String
  canonicalRemote : Option String
  projectId : Option String
  createdAt : Int
  owner : Option String

variable {sql : Sql}

/-- What `SqlStore` answers to the call, and the registry after it. -/
def RepositoryUpsert.sqlStore (call : RepositoryUpsert) (reg : Registry sql) :
    Option (Option UpsertedRepository × Registry sql) :=
  SqlStore.upsertRepository reg call.now call.repositoryId call.machineId call.repoRoot call.canonicalRemote
    call.projectId call.createdAt call.owner

/-- What `FakeStore` answers to the call, and the store after it. -/
def RepositoryUpsert.fakeStore (call : RepositoryUpsert) (store : FakeStore) :
    Option (Option UpsertedRepository × FakeStore) :=
  store.upsertRepository call.now call.repositoryId call.machineId call.repoRoot call.canonicalRemote call.projectId
    call.createdAt call.owner

/-- The two stores side by side. -/
structure RepositoryStores (sql : Sql) where
  reg : Registry sql
  fake : FakeStore

namespace RepositoryStores

/-- Both stores are called; a call that raises changes nothing. -/
def call (stores : RepositoryStores sql) (call : RepositoryUpsert) : Option (RepositoryStores sql) :=
  some ⟨(call.sqlStore stores.reg).elim stores.reg (·.2), (call.fakeStore stores.fake).elim stores.fake (·.2)⟩

/-- The stores agree: they hold the same row under each id, and `_repo_natural` is the inverse of the table. -/
structure Agree (stores : RepositoryStores sql) : Prop where
  rows : ∀ id, stores.reg.repositories.lookup (sql.key id) = stores.fake.repositories id
  natural : ∀ machineId repoRoot id, stores.fake.repoNatural (machineId, repoRoot) = some id ↔
    ∃ row, stores.fake.repositories id = some row ∧ row.machineId = machineId ∧ row.repoRoot = repoRoot

end RepositoryStores

/-- At most one row for each natural key. -/
def OneRowPerCheckout (reg : Registry sql) : Prop :=
  ∀ row ∈ reg.repositories.rows, ∀ row' ∈ reg.repositories.rows,
    row.machineId = row'.machineId → row.repoRoot = row'.repoRoot → row = row'

/-- A call for a registered machine, with values that fit their columns, by the machine itself or without an owner. -/
structure RepositoryUpsert.Valid (machines : Table fun row : MachineRow => sql.key row.machineId)
    (call : RepositoryUpsert) : Prop where
  registered : (machines.lookup (sql.key call.machineId)).isSome
  repositoryId_fits : sql.fits 64 call.repositoryId = true
  machineId_fits : sql.fits 64 call.machineId = true
  canonicalRemote_fits : sql.fitsOpt 500 call.canonicalRemote = true
  projectId_fits : sql.fitsOpt 64 call.projectId = true
  repoRoot_fits : sql.fits 1000 call.repoRoot = true
  owner_eq : call.owner = none ∨ call.owner = some call.machineId

/-- What is promised of one call. -/
structure RepositoryUpsert.Answered (stores : RepositoryStores sql) (call : RepositoryUpsert) : Prop where
  /-- Neither store raises, and both return the same. -/
  same : ∃ response, (call.sqlStore stores.reg).map (·.1) = some response ∧
    (call.fakeStore stores.fake).map (·.1) = some response
  /-- A known checkout under an id that no row has: the original id is returned, and no row is created. -/
  remapped : ∀ row ∈ stores.reg.repositories.rows, row.machineId = call.machineId → row.repoRoot = call.repoRoot →
    (∀ row' ∈ stores.reg.repositories.rows, row'.repositoryId ≠ call.repositoryId) →
    (call.sqlStore stores.reg).map (·.1) = some (some ⟨row.repositoryId, false, true⟩) ∧
    ∀ stores', stores.call call = some stores' →
      stores'.reg.repositories.rows.map (·.repositoryId) = stores.reg.repositories.rows.map (·.repositoryId)
  /-- The rows of other machines than the owner are those of before. -/
  owned : ∀ owner, call.owner = some owner → ∀ stores', stores.call call = some stores' → ∀ row : RepositoryRow,
    row.machineId ≠ owner → (row ∈ stores'.reg.repositories.rows ↔ row ∈ stores.reg.repositories.rows)

namespace RepositoryStores

variable {stores stores' : RepositoryStores sql} {roots : Set String} {row : RepositoryRow} {call : RepositoryUpsert}

/-! ### The table and the index -/

theorem Agree.mem_rows (h : stores.Agree) :
    row ∈ stores.reg.repositories.rows → stores.fake.repositories row.repositoryId = some row := by
  intro hrow
  rw [← h.rows]
  exact Table.lookup_eq_some.2 ⟨hrow, rfl⟩

theorem Agree.of_repositories (h : stores.Agree) (hkey : Function.Injective sql.key) {id : String}
    (hrow : stores.fake.repositories id = some row) : row ∈ stores.reg.repositories.rows ∧ row.repositoryId = id := by
  rw [← h.rows] at hrow
  obtain ⟨hmem, hid⟩ := Table.lookup_eq_some.1 hrow
  exact ⟨hmem, hkey hid⟩

theorem Agree.oneRowPerCheckout (h : stores.Agree) : OneRowPerCheckout stores.reg := by
  intro row hrow row' hrow' hmachine hroot
  have hnatural := (h.natural row'.machineId row'.repoRoot row.repositoryId).2
    ⟨row, h.mem_rows hrow, hmachine, hroot⟩
  have hnatural' := (h.natural row'.machineId row'.repoRoot row'.repositoryId).2 ⟨row', h.mem_rows hrow', rfl, rfl⟩
  have hid : row.repositoryId = row'.repositoryId := Option.some.inj (hnatural.symm.trans hnatural')
  have hlookup := h.mem_rows hrow
  rw [hid, h.mem_rows hrow'] at hlookup
  exact (Option.some.inj hlookup).symm

/-- The query by the natural key finds what the index holds. -/
theorem Agree.findRepoByNaturalKey (h : stores.Agree) (hkey : Function.Injective sql.key)
    (hsha : Set.InjOn sql.sha256 roots) (hroots : ∀ row ∈ stores.reg.repositories.rows, row.repoRoot ∈ roots)
    (machineId : String) {repoRoot : String} (hroot : repoRoot ∈ roots) :
    SqlStore.findRepoByNaturalKey stores.reg machineId repoRoot = stores.fake.repoNatural (machineId, repoRoot) := by
  have hfound : ∀ id, SqlStore.findRepoByNaturalKey stores.reg machineId repoRoot = some id →
      stores.fake.repoNatural (machineId, repoRoot) = some id := by
    intro id hid
    obtain ⟨row, hfind, rfl⟩ := Option.map_eq_some_iff.1 hid
    have hrow := List.mem_of_find?_eq_some hfind
    have hpred := List.find?_some hfind
    obtain ⟨hmachine, hhash⟩ := of_decide_eq_true hpred
    exact (h.natural _ _ _).2 ⟨row, h.mem_rows hrow, hkey hmachine, hsha (hroots row hrow) hroot hhash⟩
  cases hfind : SqlStore.findRepoByNaturalKey stores.reg machineId repoRoot with
  | some id => exact (hfound id hfind).symm
  | none =>
    cases hindex : stores.fake.repoNatural (machineId, repoRoot) with
    | none => rfl
    | some id =>
      obtain ⟨row, hrow, rfl, rfl⟩ := (h.natural _ _ _).1 hindex
      have hmem := (h.of_repositories hkey hrow).1
      have hnone := List.find?_eq_none.1 (Option.map_eq_none_iff.1 hfind) row hmem
      simp at hnone

/-! ### One row is written -/

/-- The call writes `row` in both stores, and the index follows. -/
structure Written (stores stores' : RepositoryStores sql) (row : RepositoryRow) : Prop where
  lookup : ∀ k, stores'.reg.repositories.lookup k =
    if sql.key row.repositoryId = k then some row else stores.reg.repositories.lookup k
  repositories : stores'.fake.repositories = Function.update stores.fake.repositories row.repositoryId (some row)
  natural : ∀ machineId repoRoot id, stores'.fake.repoNatural (machineId, repoRoot) = some id ↔
    (id = row.repositoryId ∧ machineId = row.machineId ∧ repoRoot = row.repoRoot) ∨
      (id ≠ row.repositoryId ∧ stores.fake.repoNatural (machineId, repoRoot) = some id)
  machines : stores'.reg.machines = stores.reg.machines

theorem Written.agree (hwritten : Written stores stores' row) (h : stores.Agree) (hkey : Function.Injective sql.key) :
    stores'.Agree where
  rows id := by
    rw [hwritten.lookup, hwritten.repositories]
    by_cases hid : row.repositoryId = id
    · subst hid
      rw [if_pos rfl, Function.update_self]
    · rw [if_neg fun hk => hid (hkey hk), Function.update_of_ne (Ne.symm hid), h.rows]
  natural machineId repoRoot id := by
    rw [hwritten.natural, hwritten.repositories]
    by_cases hid : id = row.repositoryId
    · subst hid
      rw [Function.update_self]
      constructor
      · rintro (⟨-, rfl, rfl⟩ | ⟨hne, -⟩)
        · exact ⟨row, rfl, rfl, rfl⟩
        · exact absurd rfl hne
      · rintro ⟨row', hrow', rfl, rfl⟩
        obtain rfl := Option.some.inj hrow'
        exact Or.inl ⟨rfl, rfl, rfl⟩
    · rw [Function.update_of_ne hid, ← h.natural]
      simp [hid]

theorem Written.mem_rows (hwritten : Written stores stores' row) (hkey : Function.Injective sql.key)
    {row' : RepositoryRow} : row' ∈ stores'.reg.repositories.rows ↔
      row' = row ∨ (row' ∈ stores.reg.repositories.rows ∧ row'.repositoryId ≠ row.repositoryId) := by
  have hmem : ∀ t : Table fun row : RepositoryRow => sql.key row.repositoryId,
      row' ∈ t.rows ↔ t.lookup (sql.key row'.repositoryId) = some row' := by
    intro t
    rw [Table.lookup_eq_some]
    simp
  rw [hmem, hmem, hwritten.lookup]
  by_cases hid : row.repositoryId = row'.repositoryId
  · rw [if_pos (congrArg sql.key hid)]
    simp [hid, eq_comm]
  · rw [if_neg fun hk => hid (hkey hk)]
    have hne : row' ≠ row := fun heq => hid (heq ▸ rfl)
    simp [hne, Ne.symm hid]

/-- An `UPDATE` of the row with an id. -/
def updateRow (reg : Registry sql) (repositoryId : String) (f : RepositoryRow → RepositoryRow)
    (hid : ∀ row, (f row).repositoryId = row.repositoryId) : Registry sql :=
  { reg with
    repositories := reg.repositories.update (fun row => sql.key row.repositoryId = sql.key repositoryId) f
      fun row => congrArg sql.key (hid row) }

private theorem lookup_updateRow {reg : Registry sql} {old : RepositoryRow} (hold : old ∈ reg.repositories.rows)
    {f : RepositoryRow → RepositoryRow} (hid : ∀ row, (f row).repositoryId = row.repositoryId) (k : String) :
    (updateRow reg old.repositoryId f hid).repositories.lookup k =
      if sql.key (f old).repositoryId = k then some (f old) else reg.repositories.lookup k := by
  have hone : ∀ row ∈ reg.repositories.rows, decide (sql.key row.repositoryId = sql.key old.repositoryId) = true →
      row = old :=
    fun row hrow hk => Table.eq_of_key (t := reg.repositories) hrow hold (of_decide_eq_true hk)
  have hput := Table.update_eq_put (t := reg.repositories) (fun row => congrArg sql.key (hid row)) hold
    (decide_eq_true rfl) hone
  unfold updateRow
  rw [hput, Table.lookup_put]

private theorem ids_updateRow (reg : Registry sql) (id : String) {f : RepositoryRow → RepositoryRow}
    (hid : ∀ row, (f row).repositoryId = row.repositoryId) :
    (updateRow reg id f hid).repositories.rows.map (·.repositoryId) = reg.repositories.rows.map (·.repositoryId) := by
  unfold updateRow Table.update
  rw [List.map_map]
  refine List.map_congr_left fun row _ => ?_
  rw [Function.comp_apply]
  split
  · exact hid row
  · rfl

/-- A key is hooked into an index in which the key is free: `index` is the index of before without the entries of the
id. -/
private theorem hook {before index : String × String → Option String} {key : String × String} {id : String}
    (hfree : before key = none) (hindex : ∀ p, p ≠ key → ∀ x, index p = some x ↔ x ≠ id ∧ before p = some x)
    (p : String × String) (x : String) : Function.update index key (some id) p = some x ↔
      (x = id ∧ p.1 = key.1 ∧ p.2 = key.2) ∨ (x ≠ id ∧ before p = some x) := by
  rw [← Prod.ext_iff]
  by_cases hp : p = key
  · subst hp
    rw [Function.update_self, hfree]
    simp [eq_comm]
  · rw [Function.update_of_ne hp, hindex p hp]
    simp [hp]

/-! ### The cases of a call -/

/-- The owner guard refuses the call. -/
def Refused (stores : RepositoryStores sql) (call : RepositoryUpsert) : Prop :=
  call.owner.isSome ∧ (stores.fake.repositories call.repositoryId).isSome ∧
    (stores.fake.repositories call.repositoryId).map (·.machineId) ≠ call.owner

/-- The row that `_update_repo` leaves. -/
def refreshed (call : RepositoryUpsert) (row : RepositoryRow) : RepositoryRow :=
  { row with canonicalRemote := call.canonicalRemote, projectId := call.projectId, lastSeenAt := some call.now }

/-- The row that `_update_repo_machine` leaves. -/
def repointed (call : RepositoryUpsert) (row : RepositoryRow) : RepositoryRow :=
  { refreshed call row with machineId := call.machineId, repoRoot := call.repoRoot }

/-- The row that is inserted. -/
def inserted (call : RepositoryUpsert) : RepositoryRow :=
  ⟨call.repositoryId, call.machineId, call.canonicalRemote, call.projectId, call.repoRoot, call.createdAt, call.now,
    some call.now⟩

/-- Both stores answer `response`, and `row` is written. -/
structure Handled (stores : RepositoryStores sql) (call : RepositoryUpsert) (response : UpsertedRepository)
    (row : RepositoryRow) (stores' : RepositoryStores sql) : Prop where
  sqlStore : call.sqlStore stores.reg = some (some response, stores'.reg)
  fakeStore : call.fakeStore stores.fake = some (some response, stores'.fake)
  written : Written stores stores' row
  machineId : row.machineId = call.machineId
  repoRoot : row.repoRoot = call.repoRoot
  /-- A row that the owner overwrites is its own. -/
  own : call.owner.isSome → ∀ old, stores.fake.repositories row.repositoryId = some old → old.machineId = call.machineId

theorem Handled.step {response : UpsertedRepository} (h : Handled stores call response row stores') :
    stores.call call = some stores' := by
  rw [RepositoryStores.call, h.sqlStore, h.fakeStore]
  rfl

/-- The guard refuses the call in both stores, and neither changes. -/
theorem Agree.refused (h : stores.Agree) (hguard : Refused stores call) :
    call.sqlStore stores.reg = some (none, stores.reg) ∧ call.fakeStore stores.fake = some (none, stores.fake) := by
  unfold Refused at hguard
  constructor
  · unfold RepositoryUpsert.sqlStore SqlStore.upsertRepository
    dsimp only
    rw [h.rows, if_pos hguard]
  · unfold RepositoryUpsert.fakeStore FakeStore.upsertRepository
    dsimp only
    rw [if_pos hguard]

/-- The checkout is known: its row is refreshed. -/
theorem Agree.known (h : stores.Agree) (hvalid : call.Valid stores.reg.machines) (hguard : ¬ Refused stores call)
    (hfind : SqlStore.findRepoByNaturalKey stores.reg call.machineId call.repoRoot =
      stores.fake.repoNatural (call.machineId, call.repoRoot))
    (hold : row ∈ stores.reg.repositories.rows) (hmachine : row.machineId = call.machineId)
    (hroot : row.repoRoot = call.repoRoot) : ∃ store,
      Handled stores call ⟨row.repositoryId, false, row.repositoryId ≠ call.repositoryId⟩ (refreshed call row)
        ⟨updateRow stores.reg row.repositoryId (refreshed call) fun _ => rfl, store⟩ := by
  have hrow := h.mem_rows hold
  have hindex : stores.fake.repoNatural (call.machineId, call.repoRoot) = some row.repositoryId :=
    (h.natural _ _ _).2 ⟨row, hrow, hmachine, hroot⟩
  unfold Refused at hguard
  refine ⟨{ stores.fake with
    repositories := Function.update stores.fake.repositories row.repositoryId (some (refreshed call row)) }, ?_, ?_,
    ⟨lookup_updateRow (f := refreshed call) hold fun _ => rfl, rfl, fun machineId repoRoot id => ?_, rfl⟩,
    hmachine, hroot, fun _ old hold => ?_⟩
  · unfold RepositoryUpsert.sqlStore SqlStore.upsertRepository
    dsimp only
    rw [h.rows, if_neg hguard, hfind, hindex]
    simp only [updateRepo, hvalid.canonicalRemote_fits, hvalid.projectId_fits, Bool.and_self, if_true, Option.map_some]
    rfl
  · unfold RepositoryUpsert.fakeStore FakeStore.upsertRepository
    dsimp only
    rw [if_neg hguard, hindex]
    simp only [hrow, Option.map_some, refreshed]
  · have hnatural := h.natural machineId repoRoot id
    by_cases heq : id = row.repositoryId
    · subst heq
      rw [hnatural, hrow]
      simp [refreshed, eq_comm]
    · simp [heq, refreshed]
  · obtain rfl := Option.some.inj (hrow.symm.trans hold)
    exact hmachine

/-- The checkout is not known, and the id is: the row is re-pointed. -/
theorem Agree.repointed (h : stores.Agree) (hvalid : call.Valid stores.reg.machines) (hguard : ¬ Refused stores call)
    (hfind : SqlStore.findRepoByNaturalKey stores.reg call.machineId call.repoRoot = none)
    (hindex : stores.fake.repoNatural (call.machineId, call.repoRoot) = none)
    (hold : row ∈ stores.reg.repositories.rows) (hid : row.repositoryId = call.repositoryId) : ∃ stores',
      Handled stores call ⟨call.repositoryId, false, false⟩ (repointed call row) stores' := by
  have hrow := h.mem_rows hold
  unfold Refused at hguard
  have hregistered : stores.reg.hasMachine call.machineId = true := hvalid.registered
  refine ⟨⟨updateRow stores.reg row.repositoryId (RepositoryStores.repointed call) fun _ => rfl, ({ stores.fake with
    repositories := Function.update stores.fake.repositories row.repositoryId
      (some (RepositoryStores.repointed call row))
    repoNatural := Function.update (Function.update stores.fake.repoNatural (row.machineId, row.repoRoot) none)
      (call.machineId, call.repoRoot) (some row.repositoryId) })⟩, ?_, ?_,
    ⟨lookup_updateRow (f := RepositoryStores.repointed call) hold fun _ => rfl, rfl, fun machineId repoRoot id => ?_,
      rfl⟩, rfl, rfl, fun howner old hold => ?_⟩
  · have htaken : (stores.reg.repositories.insert (inserted call)) = none := by
      rw [Table.insert_eq_none]
      change (stores.reg.repositories.lookup (sql.key call.repositoryId)).isSome
      rw [h.rows, ← hid, hrow]
      rfl
    have hexists : repoIdExists stores.reg call.repositoryId = true := by
      rw [repoIdExists, h.rows, ← hid, hrow]
      rfl
    unfold RepositoryUpsert.sqlStore SqlStore.upsertRepository
    dsimp only
    rw [h.rows, if_neg hguard, hfind]
    dsimp only
    unfold insertRepo
    unfold inserted at htaken
    simp only [hvalid.repositoryId_fits, hvalid.machineId_fits, hvalid.canonicalRemote_fits, hvalid.projectId_fits,
      hvalid.repoRoot_fits, hregistered, hfind, htaken, hexists, updateRepoMachine, Bool.and_self, Bool.not_true,
      Option.isSome_none, Bool.or_self, Option.isNone_none, Bool.false_eq_true, if_true, if_false, Option.map_some]
    rw [hid]
    rfl
  · unfold RepositoryUpsert.fakeStore FakeStore.upsertRepository
    dsimp only
    rw [if_neg hguard, hindex, ← hid]
    simp only [hrow]
    rfl
  · refine hook hindex (fun p hp x => ?_) (machineId, repoRoot) id
    by_cases hunhooked : p = (row.machineId, row.repoRoot)
    · rw [hunhooked, Function.update_self, (h.natural row.machineId row.repoRoot _).2 ⟨row, hrow, rfl, rfl⟩]
      simp [eq_comm]
    · rw [Function.update_of_ne hunhooked, and_iff_right_of_imp]
      rintro hsome rfl
      obtain ⟨row', hrow', hkey⟩ := (h.natural p.1 p.2 _).1 hsome
      obtain rfl := Option.some.inj (hrow.symm.trans hrow')
      exact hunhooked (Prod.ext hkey.1.symm hkey.2.symm)
  · have hold : stores.fake.repositories call.repositoryId = some old := hid ▸ hold
    rw [hold] at hguard
    rcases hvalid.owner_eq with hnone | hsome
    · rw [hnone] at howner
      cases howner
    · rw [hsome] at hguard
      simpa using hguard

/-- Neither the checkout nor the id is known: a row is created. -/
theorem Agree.created (h : stores.Agree) (hvalid : call.Valid stores.reg.machines) (hguard : ¬ Refused stores call)
    (hfind : SqlStore.findRepoByNaturalKey stores.reg call.machineId call.repoRoot = none)
    (hindex : stores.fake.repoNatural (call.machineId, call.repoRoot) = none)
    (hnew : stores.fake.repositories call.repositoryId = none) : ∃ stores',
      Handled stores call ⟨call.repositoryId, true, false⟩ (inserted call) stores' := by
  unfold Refused at hguard
  have hregistered : stores.reg.hasMachine call.machineId = true := hvalid.registered
  obtain ⟨table, htable⟩ := Table.exists_insert (t := stores.reg.repositories) (r := inserted call)
    ((h.rows call.repositoryId).trans hnew)
  refine ⟨⟨{ stores.reg with repositories := table }, ({ stores.fake with
    repositories := Function.update stores.fake.repositories call.repositoryId (some (inserted call))
    repoNatural := Function.update stores.fake.repoNatural (call.machineId, call.repoRoot)
      (some call.repositoryId) })⟩, ?_, ?_,
    ⟨fun k => Table.lookup_insert htable, rfl, fun machineId repoRoot id => ?_, rfl⟩, rfl, rfl, fun _ old hold => ?_⟩
  · unfold RepositoryUpsert.sqlStore SqlStore.upsertRepository
    dsimp only
    rw [h.rows, if_neg hguard, hfind]
    dsimp only
    unfold insertRepo
    unfold inserted at htable
    simp only [hvalid.repositoryId_fits, hvalid.machineId_fits, hvalid.canonicalRemote_fits, hvalid.projectId_fits,
      hvalid.repoRoot_fits, hregistered, hfind, htable, Bool.and_self, Bool.not_true, Option.isSome_none, Bool.or_self,
      Bool.false_eq_true, if_false]
  · unfold RepositoryUpsert.fakeStore FakeStore.upsertRepository
    dsimp only
    rw [if_neg hguard, hindex, hnew]
    rfl
  · refine hook hindex (fun p hp x => ?_) (machineId, repoRoot) id
    refine (and_iff_right_of_imp ?_).symm
    rintro hsome rfl
    obtain ⟨row, hrow, -⟩ := (h.natural p.1 p.2 _).1 hsome
    cases hnew.symm.trans hrow
  · cases hnew.symm.trans hold

/-! ### The result -/

/-- A call that the guard does not refuse. -/
theorem Agree.handled (h : stores.Agree) (hkey : Function.Injective sql.key) (hvalid : call.Valid stores.reg.machines)
    (hguard : ¬ Refused stores call)
    (hfind : SqlStore.findRepoByNaturalKey stores.reg call.machineId call.repoRoot =
      stores.fake.repoNatural (call.machineId, call.repoRoot)) :
    ∃ response row stores', Handled stores call response row stores' := by
  cases hindex : stores.fake.repoNatural (call.machineId, call.repoRoot) with
  | some id =>
    obtain ⟨row, hrow, hmachine, hroot⟩ := (h.natural _ _ _).1 hindex
    obtain ⟨store, hhandled⟩ := h.known hvalid hguard hfind (h.of_repositories hkey hrow).1 hmachine hroot
    exact ⟨_, _, _, hhandled⟩
  | none =>
    rw [hindex] at hfind
    cases hid : stores.fake.repositories call.repositoryId with
    | some row =>
      obtain ⟨hmem, hid⟩ := h.of_repositories hkey hid
      obtain ⟨stores', hhandled⟩ := h.repointed hvalid hguard hfind hindex hmem hid
      exact ⟨_, _, _, hhandled⟩
    | none =>
      obtain ⟨stores', hhandled⟩ := h.created hvalid hguard hfind hindex hid
      exact ⟨_, _, _, hhandled⟩

/-- What every call preserves: the stores agree, the machines are those of before, and the roots are among `roots`. -/
structure Inv (roots : Set String) (machines : Table fun row : MachineRow => sql.key row.machineId)
    (stores : RepositoryStores sql) : Prop where
  agree : stores.Agree
  machines_eq : stores.reg.machines = machines
  roots_mem : ∀ row ∈ stores.reg.repositories.rows, row.repoRoot ∈ roots

variable {machines : Table fun row : MachineRow => sql.key row.machineId}

/-- One call. -/
theorem Inv.step (h : stores.Inv roots machines) (hkey : Function.Injective sql.key) (hsha : Set.InjOn sql.sha256 roots)
    (hvalid : call.Valid machines) (hroot : call.repoRoot ∈ roots) :
    call.Answered stores ∧ ∀ stores', stores.call call = some stores' → stores'.Inv roots machines := by
  obtain ⟨hagree, rfl, hroots⟩ := h
  have hfind := hagree.findRepoByNaturalKey hkey hsha hroots call.machineId hroot
  have hremapped : ∀ row ∈ stores.reg.repositories.rows, row.machineId = call.machineId → row.repoRoot = call.repoRoot →
      (∀ row' ∈ stores.reg.repositories.rows, row'.repositoryId ≠ call.repositoryId) →
      (call.sqlStore stores.reg).map (·.1) = some (some ⟨row.repositoryId, false, true⟩) ∧
      ∀ stores', stores.call call = some stores' →
        stores'.reg.repositories.rows.map (·.repositoryId) = stores.reg.repositories.rows.map (·.repositoryId) := by
    intro row hrow hmachine hroot hnew
    have hguard : ¬ Refused stores call := by
      rintro ⟨-, hsome, -⟩
      obtain ⟨row', hrow'⟩ := Option.isSome_iff_exists.1 hsome
      obtain ⟨hmem, hid⟩ := hagree.of_repositories hkey hrow'
      exact hnew row' hmem hid
    obtain ⟨store, hhandled⟩ := hagree.known hvalid hguard hfind hrow hmachine hroot
    refine ⟨?_, fun stores' hcall => ?_⟩
    · rw [hhandled.sqlStore, decide_eq_true (hnew row hrow)]
      rfl
    · obtain rfl := Option.some.inj (hhandled.step.symm.trans hcall)
      exact ids_updateRow (f := refreshed call) stores.reg row.repositoryId fun _ => rfl
  by_cases hguard : Refused stores call
  · obtain ⟨hsql, hfake⟩ := hagree.refused hguard
    have hsame : ∀ stores', stores.call call = some stores' → stores' = stores := by
      intro stores' hcall
      rw [RepositoryStores.call, hsql, hfake] at hcall
      exact (Option.some.inj hcall).symm
    refine ⟨⟨⟨none, by rw [hsql]; rfl, by rw [hfake]; rfl⟩, hremapped, fun owner _ stores' hcall row _ => ?_⟩,
      fun stores' hcall => ?_⟩
    · rw [hsame stores' hcall]
    · rw [hsame stores' hcall]
      exact ⟨hagree, rfl, hroots⟩
  · obtain ⟨response, row, after, hhandled⟩ := hagree.handled hkey hvalid hguard hfind
    have hafter : ∀ stores', stores.call call = some stores' → stores' = after :=
      fun stores' hcall => Option.some.inj (hcall.symm.trans hhandled.step)
    refine ⟨⟨⟨some response, by rw [hhandled.sqlStore]; rfl, by rw [hhandled.fakeStore]; rfl⟩, hremapped, ?_⟩,
      fun stores' hcall => ?_⟩
    · intro owner howner stores' hcall row' hother
      obtain rfl := hafter stores' hcall
      have hmachine : call.machineId = owner := by
        rcases hvalid.owner_eq with hnone | hsome
        · cases hnone.symm.trans howner
        · exact Option.some.inj (hsome.symm.trans howner)
      rw [hhandled.written.mem_rows hkey]
      constructor
      · rintro (rfl | ⟨hrow', -⟩)
        · exact absurd (hhandled.machineId.trans hmachine) hother
        · exact hrow'
      · intro hrow'
        refine Or.inr ⟨hrow', fun hid => hother ?_⟩
        have hold := hhandled.own (by rw [howner]; rfl) row' (hid ▸ hagree.mem_rows hrow')
        exact hold.trans hmachine
    · obtain rfl := hafter stores' hcall
      refine ⟨hhandled.written.agree hagree hkey, hhandled.written.machines, fun row' hrow' => ?_⟩
      rcases (hhandled.written.mem_rows hkey).1 hrow' with rfl | ⟨hrow', -⟩
      · rw [hhandled.repoRoot]
        exact hroot
      · exact hroots row' hrow'

/-- No repository is registered. -/
def start (machines : Table fun row : MachineRow => sql.key row.machineId) : RepositoryStores sql where
  reg := { Registry.empty with machines := machines }
  fake := FakeStore.empty

theorem start_inv (roots : Set String) (machines : Table fun row : MachineRow => sql.key row.machineId) :
    (start machines).Inv roots machines where
  agree := ⟨fun _ => rfl, fun _ _ _ => ⟨fun h => (by cases h), by rintro ⟨_, h, -⟩; cases h⟩⟩
  machines_eq := rfl
  roots_mem _ h := by cases h

end RepositoryStores

/-- **The two stores agree on repositories.**  Ids are compared exactly, and the hash tells the checkout paths of the
calls apart.  Every sequence of valid calls is answered alike by both stores; a known checkout that is registered under
a new id keeps its id; a call with an owner leaves the rows of other machines alone.  In the end the stores agree, and
no two rows are of one checkout. -/
theorem repositories_agree (hkey : Function.Injective sql.key)
    {machines : Table fun row : MachineRow => sql.key row.machineId} {calls : List RepositoryUpsert}
    (hsha : Set.InjOn sql.sha256 {root | ∃ call ∈ calls, call.repoRoot = root})
    (hvalid : ∀ call ∈ calls, call.Valid machines) :
    Run.Meets RepositoryStores.call (fun stores call => call.Answered stores) (RepositoryStores.start machines) calls ∧
    ∃ stores, Run.exec RepositoryStores.call (RepositoryStores.start machines) calls = some stores ∧ stores.Agree ∧
      OneRowPerCheckout stores.reg := by
  have hcalls : Run.Meets RepositoryStores.call
      (fun _ call => call.Valid machines ∧ call.repoRoot ∈ {root | ∃ call ∈ calls, call.repoRoot = root})
      (RepositoryStores.start machines) calls :=
    Run.meets_of_forall _ fun call hcall => ⟨hvalid call hcall, call, hcall, rfl⟩
  have hstart := RepositoryStores.start_inv {root | ∃ call ∈ calls, call.repoRoot = root} machines
  obtain ⟨stores, hrun⟩ := Run.exists_exec (fun s a => ⟨_, rfl⟩) (RepositoryStores.start machines) calls
  have hinv := Run.invariant_of_meets (fun s call s' hs hcall hs' => (hs.step hkey hsha hcall.1 hcall.2).2 s' hs') hstart
    hcalls hrun
  refine ⟨?_, stores, hrun, hinv.agree, hinv.agree.oneRowPerCheckout⟩
  exact Run.meets_of_invariant (fun s call s' hs hcall hs' => (hs.step hkey hsha hcall.1 hcall.2).2 s' hs')
    (fun s call hs hcall => (hs.step hkey hsha hcall.1 hcall.2).1) hstart hcalls

/-! ### A checkout that is re-minted and an id that moves -/

/-- A database that compares ids exactly. -/
private def exactSql : Sql := { Sql.sample with key := id }

private def machineRows : Table fun row : MachineRow => exactSql.key row.machineId :=
  ⟨[⟨"mach_1", "desk", "linux", 0, 0, none⟩, ⟨"mach_2", "desk", "linux", 0, 0, none⟩], by decide⟩

private def upsertRepo (now : Int) (repositoryId machineId repoRoot : String) (owner : Option String) :
    RepositoryUpsert :=
  ⟨now, repositoryId, machineId, repoRoot, none, none, 0, owner⟩

/-- A checkout is registered and re-minted under a new id, and then its machine is re-minted. -/
private def remintCalls : List RepositoryUpsert :=
  [upsertRepo 1 "repo_1" "mach_1" "/src" (some "mach_1"), upsertRepo 2 "repo_2" "mach_1" "/src" (some "mach_1"),
    upsertRepo 3 "repo_1" "mach_2" "/src" none]

private theorem remintCalls_valid : ∀ call ∈ remintCalls, call.Valid machineRows := by
  refine List.forall_mem_cons.2 ⟨?_, List.forall_mem_cons.2 ⟨?_, List.forall_mem_singleton.2 ?_⟩⟩
  · exact ⟨by decide, by decide, by decide, by decide, by decide, by decide, Or.inr rfl⟩
  · exact ⟨by decide, by decide, by decide, by decide, by decide, by decide, Or.inr rfl⟩
  · exact ⟨by decide, by decide, by decide, by decide, by decide, by decide, Or.inl rfl⟩

/-- In the end both stores hold one row, under the first id and the new machine. -/
theorem remint_agrees : ∃ stores, Run.exec RepositoryStores.call (RepositoryStores.start machineRows) remintCalls =
    some stores ∧ stores.Agree ∧ ∃ row, stores.reg.repositories.rows = [row] ∧ row.repositoryId = "repo_1" ∧
    row.machineId = "mach_2" ∧ stores.fake.repositories "repo_1" = some row := by
  have hkey : Function.Injective exactSql.key := fun _ _ => id
  have hsha : Set.InjOn exactSql.sha256 {root | ∃ call ∈ remintCalls, call.repoRoot = root} := fun _ _ _ _ => id
  obtain ⟨-, stores, hrun, hagree, -⟩ := repositories_agree hkey hsha remintCalls_valid
  have hend : (Run.exec RepositoryStores.call (RepositoryStores.start machineRows) remintCalls).any (fun s =>
      s.reg.repositories.rows.map (fun row => (row.repositoryId, row.machineId)) = [("repo_1", "mach_2")]) = true := by
    decide +kernel
  rw [hrun, Option.any_some] at hend
  obtain ⟨row, hrow, hkeys⟩ := List.map_eq_singleton_iff.1 (of_decide_eq_true hend)
  obtain ⟨hid, hmachine⟩ := Prod.mk.inj hkeys
  have hmem := hagree.mem_rows (hrow ▸ List.mem_cons_self)
  exact ⟨stores, hrun, hagree, row, hrow, hid, hmachine, hid ▸ hmem⟩

end AgentOS
