import Clepsydra.Archive.Cas

/-!
Contract: when a stored blob can be read back.

The demand on a hash is the largest number of references still out. `Sound` says that a row's count
covers the demand and that a demanded blob has its file. Every operation keeps it, as long as the
rows it takes a reference on are intact (`Intact`).
-/

namespace Clepsydra.Archive

open Library Library.Faulty List
open Option (some.inj)

variable (hashBytes : Bytes → String)

/-! ### Counting references -/

def taken (hash : String) (events : List Event) : Nat := events.countP fun event =>
    match event with
    | .stored data => hashBytes data == hash
    | .incremented other => other == hash
    | .released _ => false

def released (hash : String) (events : List Event) : Nat := events.countP fun event =>
    match event with
    | .released other => other == hash
    | _ => false

/-- The most references to a hash that are out, from the start of the log or a store of the hash. -/
def demand (hash : String) : List Event → Int
  | [] => 0
  | .stored data :: earlier =>
    if hashBytes data = hash then max (demand hash earlier + 1) 1 else demand hash earlier
  | .incremented other :: earlier =>
    if other = hash then demand hash earlier + 1 else demand hash earlier
  | .released other :: earlier =>
    if other = hash then demand hash earlier - 1 else demand hash earlier

/-- The part of a log that counting may start from: all of it, or what begins with a store of the
data. -/
def CountedFrom (data : Bytes) (recent earlier : List Event) : Prop :=
  earlier = [] ∨ recent.getLast? = some (.stored data)

theorem balance_le_demand {data : Bytes} {recent earlier : List Event}
    (counted : CountedFrom data recent earlier) :
    (taken hashBytes (hashBytes data) recent : Int) - released (hashBytes data) recent
      ≤ demand hashBytes (hashBytes data) (recent ++ earlier) := by
  induction recent with
  | nil =>
    rcases counted with whole | store
    · simp [whole, taken, released, demand]
    · simp at store
  | cons event recent ih =>
    by_cases alone : recent = []
    · subst alone
      rcases counted with whole | store
      · subst whole
        cases event <;> simp [taken, released, demand] <;> split_ifs <;> simp_all
      · have first : event = .stored data := by simpa using store
        subst first
        have one : taken hashBytes (hashBytes data) [.stored data] = 1 := by simp [taken]
        have zero : released (hashBytes data) [.stored data] = 0 := by simp [released]
        rw [one, zero, cons_append, nil_append, demand, if_pos rfl]
        omega
    · have rest : CountedFrom data recent earlier := by
        rcases counted with whole | store
        · exact .inl whole
        · refine .inr ?_
          rwa [getLast?_cons_of_ne_nil alone] at store
      have smaller := ih rest
      unfold taken released at smaller ⊢
      cases event with
      | stored other =>
        by_cases same : hashBytes other = hashBytes data
        · simp only [cons_append, demand, countP_cons, same, beq_self_eq_true, if_true]
          push_cast
          omega
        · simpa [demand, countP_cons, same] using smaller
      | incremented other | released other =>
        by_cases same : other = hashBytes data
        · simp only [cons_append, demand, countP_cons, same, beq_self_eq_true, if_true]
          push_cast
          omega
        · simpa [demand, countP_cons, same] using smaller

/-! ### The invariant -/

/-- The count is at least the demand, and a demanded blob has its own bytes. -/
structure Covers (hash : String) (row : Option BlobRow) (file : Option Bytes) (needed : Int) :
    Prop where
  counted : ∀ found, row = some found → needed ≤ found.refCount
  absent : row = none → needed ≤ 0
  backed : 0 < needed → ∃ data, file = some data ∧ hashBytes data = hash

def Sound (store : Store) : Prop :=
  ∀ hash, Covers hashBytes hash (store.blobs.get hash) (store.blobFile hash)
    (demand hashBytes hash store.log)

theorem Covers.of_nonpos {hash : String} {row : Option BlobRow} {file : Option Bytes}
    {needed : Int} (none : needed ≤ 0)
    (counted : ∀ found, row = some found → needed ≤ found.refCount) :
    Covers hashBytes hash row file needed :=
  ⟨counted, fun _ => none, fun positive => absurd none (by omega)⟩

theorem sound_empty : Sound hashBytes Store.empty := fun hash =>
  Covers.of_nonpos hashBytes (Int.le_refl 0) (by simp [Store.empty])

/-- A store that finds a row finds its bytes; an increment finds a row and its file. -/
def Intact (call : Call) (store : Store) : Prop :=
  match call with
  | .store data _ _ =>
    ∀ row, store.blobs.get (hashBytes data) = some row →
      0 ≤ row.refCount ∧ store.blobFile (hashBytes data) = some data
  | .incrementRef hash =>
    validateHash hash = true → (store.blobs.get hash).isSome
        ∧ ∃ data, store.blobFile hash = some data ∧ hashBytes data = hash
  | _ => True

structure Countable (data : Bytes) (store : Store) : Prop where
  sound : Sound hashBytes store
  counted : ∃ row, store.blobs.get (hashBytes data) = some row
    ∧ demand hashBytes (hashBytes data) store.log + 1 ≤ row.refCount ∧ 1 ≤ row.refCount
  backed : store.blobFile (hashBytes data) = some data

structure Inserted (data : Bytes) (store : Store) : Prop where
  sound : Sound hashBytes store
  unneeded : demand hashBytes (hashBytes data) store.log ≤ 0
  row : ∃ row, store.blobs.get (hashBytes data) = some row ∧ row.refCount = 1

/-- What `gc` knows of the hashes it still has to remove: nobody needs them. -/
def Unneeded (hashes : List String) (log : List Event) : Prop :=
  ∀ hash ∈ hashes, demand hashBytes hash log ≤ 0

/-! ### One statement at a time

`Keeps` is a triple whose failures and crashes leave a sound store. -/

def Keeps {α : Type} (before : Store → Prop) (program : Cas α) (ok : α → Store → Prop) : Prop :=
  Triple (fun _ => True) (fun _ _ => True) before program ok (fun _ => Sound hashBytes) (Sound hashBytes)

variable {hashBytes} {before : Store → Prop}

theorem keeps_andThen {α β : Type} {first : Cas α} {next : α → Cas β} {between : α → Store → Prop}
    {ok : β → Store → Prop} (leading : Keeps hashBytes before first between)
    (trailing : ∀ value, Keeps hashBytes (between value) (next value) ok) :
    Keeps hashBytes before (first >>= next) ok :=
  triple_andThen leading trailing

variable (sound : ∀ store, before store → Sound hashBytes store)

include sound

theorem keeps_statement {α : Type} {failure : CasError}
    {perform : Store → Except CasError α × Store} {ok : α → Store → Prop}
    (performed : ∀ store, before store →
      (∀ value, (perform store).1 = .ok value → ok value (perform store).2)
        ∧ ∀ failure, (perform store).1 = .error failure → Sound hashBytes (perform store).2) :
    Keeps hashBytes before (statement failure perform) ok :=
  triple_step (fun store pre => ⟨trivial, performed store pre⟩)
    (fun _ store _ pre => ⟨trivial, sound store pre⟩) (fun store _ pre => sound store pre)

theorem keeps_lock :
    Keeps hashBytes before acquireExclusiveLock fun _ => before := by
  apply keeps_statement sound
  intro store pre
  exact ⟨fun _ _ => pre, fun _ failed => by cases failed⟩

theorem keeps_createParent :
    Keeps hashBytes before createParent fun _ => before := by
  apply keeps_statement sound
  intro store pre
  exact ⟨fun _ _ => pre, fun _ failed => by cases failed⟩

omit sound

theorem keeps_forEach {β : Type} (body : β → Cas Unit) (invariant : List β → Store → Prop)
    (each : ∀ head tail, Keeps hashBytes (invariant (head :: tail)) (body head)
      fun _ => invariant tail) (items : List β) :
    Keeps hashBytes (invariant items) (Program.forEach body items) fun _ => invariant [] :=
  triple_forEach each items

theorem keeps_observe {α : Type} (read : Store → α) :
    Keeps hashBytes before (Program.observe read) fun value store =>
      before store ∧ read store = value :=
  triple_observe fun _ pre => ⟨pre, rfl⟩

theorem keeps_requireValid (hash : String) (sound : ∀ store, before store → Sound hashBytes store) :
    Keeps hashBytes before (requireValid hash)
      fun _ store => before store ∧ validateHash hash = true := by
  unfold requireValid
  split_ifs with valid
  · exact triple_done fun store pre => ⟨pre, valid⟩
  · exact triple_fail fun store pre => sound store pre

/-! ### Effects on one hash -/

theorem get_addRefs (store : Store) (hash other : String) (count : Int) :
    (store.addRefs hash count).blobs.get other
      = if other = hash then (store.blobs.get other).map (addReferences count)
        else store.blobs.get other :=
  Table.get_modify store.blobs hash (addReferences count) (fun _ => rfl) other

theorem sound_of_focus {before after : Store} (hash : String) (sound : Sound hashBytes before)
    (rows : ∀ other, other ≠ hash → after.blobs.get other = before.blobs.get other)
    (files : ∀ other, other ≠ hash → after.blobFile other = before.blobFile other)
    (demands : ∀ other, other ≠ hash →
      demand hashBytes other after.log = demand hashBytes other before.log)
    (focus : Covers hashBytes hash (after.blobs.get hash) (after.blobFile hash)
      (demand hashBytes hash after.log)) : Sound hashBytes after := by
  intro other
  by_cases here : other = hash
  · rw [here]
    exact focus
  · rw [rows other here, files other here, demands other here]
    exact sound other

theorem demand_released_self (hash : String) (log : List Event) :
    demand hashBytes hash (.released hash :: log) = demand hashBytes hash log - 1 := by
  simp [demand]

theorem sound_release {store : Store} (hash : String) (sound : Sound hashBytes store) :
    Sound hashBytes { store.addRefs hash (-1) with log := .released hash :: store.log } := by
  apply sound_of_focus hash sound
  · intro other different
    rw [get_addRefs, if_neg different]
  · intro other _
    rfl
  · intro other different
    simp [demand, Ne.symm different]
  · have covered := sound hash
    rw [get_addRefs, if_pos rfl, demand_released_self]
    refine ⟨?_, ?_, ?_⟩
    · intro found isRow
      cases row : store.blobs.get hash with
      | none => simp [row] at isRow
      | some original =>
        have counted := covered.counted original row
        have changed : addReferences (-1) original = found := by simpa [row] using isRow
        subst changed
        simp only [addReferences]
        omega
    · intro noRow
      have absent := covered.absent (by simpa using noRow)
      omega
    · intro positive
      exact covered.backed (by omega)

theorem sound_forget {before after : Store} (hash : String) (sound : Sound hashBytes before)
    (unneeded : demand hashBytes hash before.log ≤ 0) (sameLog : after.log = before.log)
    (rows : ∀ other, other ≠ hash → after.blobs.get other = before.blobs.get other)
    (files : ∀ other, other ≠ hash → after.blobFile other = before.blobFile other)
    (counted : ∀ found, after.blobs.get hash = some found →
      demand hashBytes hash before.log ≤ found.refCount) : Sound hashBytes after := by
  apply sound_of_focus hash sound rows files
  · intro other _
    rw [sameLog]
  · rw [sameLog]
    exact Covers.of_nonpos hashBytes unneeded counted

theorem blobFile_write_of_ne {store : Store} {hash other : String} {content : Option Bytes}
    (different : other ≠ hash) : (store.write hash content).blobFile other = store.blobFile other := by
  simp [Store.blobFile, Store.write, Function.update_of_ne different]

/-! ### `store` -/

theorem Countable.sound_stored {data : Bytes} {store : Store}
    (countable : Countable hashBytes data store) :
    Sound hashBytes { store with log := .stored data :: store.log } := by
  have ⟨row, found, covers, positive⟩ := countable.counted
  apply sound_of_focus (hashBytes data) countable.sound
  · intro other _
    rfl
  · intro other _
    rfl
  · intro other different
    simp [demand, Ne.symm different]
  · simp only [demand, if_true]
    refine ⟨?_, ?_, fun _ => ⟨data, countable.backed, rfl⟩⟩
    · intro other isRow
      have same : row = other := some.inj (found.symm.trans isRow)
      rw [← same]
      omega
    · intro absent
      rw [found] at absent
      cases absent

theorem keeps_insertRow {data : Bytes} {contentType now : String} : Keeps hashBytes
      (fun store => Sound hashBytes store ∧ Intact hashBytes (.store data contentType now) store)
      (insertRow ⟨hashBytes data, data.length, contentType, now, 1⟩)
      fun inserted store =>
        if inserted then Inserted hashBytes data store
        else Sound hashBytes store
          ∧ (∃ row, store.blobs.get (hashBytes data) = some row ∧ 0 ≤ row.refCount)
          ∧ store.blobFile (hashBytes data) = some data := by
  apply keeps_statement fun _ pre => pre.1
  rintro store ⟨sound, intact⟩
  refine ⟨fun inserted result => ?_, fun _ failed => by cases failed⟩
  obtain rfl : (store.blobs.get (hashBytes data)).isNone = inserted := by simpa using result
  cases found : store.blobs.get (hashBytes data) with
  | none =>
    have unneeded : demand hashBytes (hashBytes data) store.log ≤ 0 :=
      (sound (hashBytes data)).absent found
    have row : (store.blobs.insertOrIgnore
        ⟨hashBytes data, data.length, contentType, now, 1⟩).get (hashBytes data)
          = some ⟨hashBytes data, data.length, contentType, now, 1⟩ := by
      rw [Table.get_insertOrIgnore, if_pos ⟨rfl, found⟩]
    refine ⟨?_, unneeded, _, row, rfl⟩
    refine sound_forget (hashBytes data) sound unneeded ?_ ?_ ?_ ?_
    · rfl
    · intro other different
      exact (Table.get_insertOrIgnore _ _ _).trans (if_neg fun both => different both.1.symm)
    · intro other _
      rfl
    · intro other isRow
      have same := some.inj (row.symm.trans isRow)
      rw [← same]
      show demand hashBytes (hashBytes data) store.log ≤ 1
      omega
  | some row =>
    have unchanged : store.blobs.insertOrIgnore
        ⟨hashBytes data, data.length, contentType, now, 1⟩ = store.blobs := by
      unfold Table.insertOrIgnore
      rw [dif_neg]
      have listed : row ∈ store.blobs.rows := Table.mem_of_get found
      have sameHash : row.hash = hashBytes data := Table.key_of_get found
      simp only [not_not, mem_map]
      exact ⟨row, listed, sameHash⟩
    simp only [Option.isNone_some, Bool.false_eq_true, if_false, unchanged]
    have ⟨count, file⟩ := intact row found
    exact ⟨sound, ⟨row, found, count⟩, file⟩

theorem keeps_writeFile (data : Bytes) (valid : validateHash (hashBytes data) = true) :
    Triple (fun _ => True) (fun _ _ => True) (Inserted hashBytes data)
      (writeFile (hashBytes data) data)
      (fun _ => Countable hashBytes data)
      (fun _ => Inserted hashBytes data) (Sound hashBytes) := by
  have written : ∀ content store, Inserted hashBytes data store →
      Inserted hashBytes data (store.write (hashBytes data) content) := by
    intro content store inserted
    refine ⟨?_, inserted.unneeded, inserted.row⟩
    refine sound_forget (hashBytes data) inserted.sound inserted.unneeded ?_ ?_ ?_ ?_
    · rfl
    · intro other _
      rfl
    · intro other different
      exact blobFile_write_of_ne different
    · exact ((inserted.sound (hashBytes data)).counted)
  apply triple_step
  · intro store inserted
    refine ⟨trivial, fun _ _ => ?_, fun _ failed => by cases failed⟩
    have after := written (some data) store inserted
    have ⟨row, found, one⟩ := inserted.row
    refine ⟨after.sound, ⟨row, found, ?_, ?_⟩, ?_⟩
    · have unneeded := inserted.unneeded
      show demand hashBytes (hashBytes data) store.log + 1 ≤ row.refCount
      omega
    · omega
    · simp [Store.blobFile, Store.write, valid]
  · intro leftover store _ inserted
    cases leftover with
    | none => exact ⟨trivial, inserted⟩
    | some bytes => exact ⟨trivial, written (some bytes) store inserted⟩
  · intro store _ inserted
    exact inserted.sound

theorem keeps_bumpRow {hash : String} {after : Store → Prop}
    (sound : ∀ store, before store → Sound hashBytes store)
    (bumped : ∀ store, before store → after (store.addRefs hash 1)) :
    Keeps hashBytes before (bumpRow hash) fun _ => after := by
  apply keeps_statement sound
  intro store pre
  exact ⟨fun _ _ => bumped store pre, fun _ failed => by cases failed⟩

theorem sound_addRef {store : Store} (hash : String) (sound : Sound hashBytes store) :
    Sound hashBytes (store.addRefs hash 1) := by
  apply sound_of_focus hash sound
  · intro other different
    rw [get_addRefs, if_neg different]
  · intro other _
    rfl
  · intro other _
    rfl
  · have covered := sound hash
    rw [get_addRefs, if_pos rfl]
    refine ⟨?_, ?_, covered.backed⟩
    · intro found isRow
      cases row : store.blobs.get hash with
      | none => simp [row] at isRow
      | some original =>
        have counted := covered.counted original row
        have changed : addReferences 1 original = found := by simpa [row] using isRow
        subst changed
        show demand hashBytes hash store.log ≤ original.refCount + 1
        omega
    · intro noRow
      exact covered.absent (by simpa using noRow)

theorem keeps_deleteRow (hash : String) (known : List Event → Prop) : Keeps hashBytes
      (fun store => Sound hashBytes store ∧ demand hashBytes hash store.log ≤ 0 ∧ known store.log)
      (deleteRow hash) fun _ store => Sound hashBytes store ∧ known store.log := by
  apply keeps_statement fun _ pre => pre.1
  rintro store ⟨sound, nonpos, logged⟩
  refine ⟨fun _ _ => ⟨?_, logged⟩, fun _ failed => by cases failed⟩
  have gone : (store.blobs.erase hash).get hash = none := by
    rw [Table.get_erase, if_pos rfl]
  refine sound_forget hash sound nonpos ?_ ?_ ?_ ?_
  · rfl
  · intro other different
    exact (Table.get_erase _ _ _).trans (if_neg different)
  · intro other _
    rfl
  · intro found isRow
    exact absurd (gone.symm.trans isRow) (by simp)

theorem keeps_store (data : Bytes) (contentType now : String) : Keeps hashBytes
      (fun store => Sound hashBytes store ∧ Intact hashBytes (.store data contentType now) store)
      (store hashBytes data contentType now) fun _ => Countable hashBytes data := by
  refine keeps_andThen (keeps_lock fun _ pre => pre.1) fun _ => ?_
  refine keeps_andThen keeps_insertRow fun inserted => ?_
  cases inserted with
  | true =>
    refine keeps_andThen (keeps_requireValid _ fun _ pre => pre.sound) fun _ => ?_
    by_cases valid : validateHash (hashBytes data) = true
    · refine keeps_andThen (keeps_createParent fun _ pre => pre.1.sound) fun _ => ?_
      have written := (keeps_writeFile data valid).mono
        (fun store (pre : Inserted hashBytes data store ∧ validateHash (hashBytes data) = true) =>
          pre.1) (fun _ _ post => post) (fun _ _ post => post) (fun _ post => post)
      refine keeps_andThen (triple_attempt written) fun result => ?_
      cases result with
      | ok _ => exact triple_done fun store countable => countable
      | error failure =>
        -- The failed write is undone by deleting the row, which nobody needs yet.
        have deleted := (keeps_deleteRow (hashBytes data) fun _ => True).mono
          (fun store (inserted : Inserted hashBytes data store) =>
            ⟨inserted.sound, inserted.unneeded, trivial⟩)
          (fun _ _ post => post) (fun _ _ post => post) (fun _ post => post)
        exact keeps_andThen deleted fun _ => triple_fail fun _ post => post.1
    · intro script _ store pre
      exact absurd pre.2 valid
  | false =>
    refine keeps_andThen (keeps_bumpRow (fun _ pre => pre.1) fun store pre => ?_) fun _ =>
      triple_done fun _ countable => countable
    have ⟨sound, ⟨row, found, count⟩, file⟩ := pre
    have counted := (sound (hashBytes data)).counted row found
    refine ⟨sound_addRef _ sound, ⟨addReferences 1 row, ?_, ?_, ?_⟩, file⟩
    · rw [get_addRefs, if_pos rfl, found]
      rfl
    · show demand hashBytes (hashBytes data) store.log + 1 ≤ row.refCount + 1
      omega
    · show 1 ≤ row.refCount + 1
      omega

/-! ### `increment_ref` and `decrement_ref` -/

theorem keeps_incrementRef (hash : String) : Keeps hashBytes
      (fun store => Sound hashBytes store ∧ Intact hashBytes (.incrementRef hash) store)
      (incrementRef hash)
      fun _ store => Sound hashBytes store
        ∧ Sound hashBytes { store with log := .incremented hash :: store.log } := by
  refine keeps_andThen (keeps_lock fun _ pre => pre.1) fun _ => ?_
  refine keeps_andThen (keeps_requireValid _ fun _ pre => pre.1) fun _ => ?_
  refine keeps_bumpRow (fun _ pre => pre.1.1) fun store pre => ?_
  have ⟨⟨sound, intact⟩, valid⟩ := pre
  have ⟨present, data, file, hashed⟩ := intact valid
  have ⟨row, found⟩ := Option.isSome_iff_exists.1 present
  refine ⟨sound_addRef _ sound, ?_⟩
  have after := sound_addRef hash sound
  apply sound_of_focus hash after
  · intro other _
    rfl
  · intro other _
    rfl
  · intro other different
    simp [demand, Ne.symm different]
  · have counted := (sound hash).counted row found
    have bumped : (store.addRefs hash 1).blobs.get hash = some (addReferences 1 row) := by
      rw [get_addRefs, if_pos rfl, found]
      rfl
    refine ⟨?_, ?_, fun _ => ⟨data, file, hashed⟩⟩
    · intro other isRow
      have same : addReferences 1 row = other := some.inj (bumped.symm.trans isRow)
      subst same
      simp only [demand, if_true]
      show demand hashBytes hash store.log + 1 ≤ row.refCount + 1
      omega
    · intro absent
      exact absurd (bumped.symm.trans absent) (by simp)

theorem keeps_decrementRef (hash : String) :
    Keeps hashBytes (Sound hashBytes) (decrementRef hash) fun _ => Sound hashBytes := by
  refine keeps_andThen (keeps_lock fun _ pre => pre) fun _ => ?_
  refine keeps_andThen (keeps_requireValid _ fun _ pre => pre) fun _ => ?_
  apply keeps_statement fun _ pre => pre.1
  intro store pre
  exact ⟨fun _ _ => sound_release hash pre.1, fun _ failed => by cases failed⟩

/-! ### `release_rubbish_archive_refs` -/

theorem sound_releaseAll {hashes : List String} {before after : Store}
    (sound : Sound hashBytes before) (result : releaseAll hashes before = .ok after) :
    Sound hashBytes after := by
  induction hashes generalizing before with
  | nil =>
    cases result
    exact sound
  | cons hash hashes ih =>
    rw [releaseAll] at result
    split at result
    · split_ifs at result
      exact ih (sound_release hash sound) result
    · cases result

theorem keeps_release (item : Clepsydra.Vault.Uuid) (hashes : List String) :
    Keeps hashBytes (Sound hashBytes) (releaseRubbishArchiveRefs item hashes)
      fun _ => Sound hashBytes := by
  refine keeps_andThen (keeps_lock fun _ pre => pre) fun _ => ?_
  refine keeps_andThen (keeps_observe _) fun completed => ?_
  cases completed with
  | true => exact triple_done fun _ pre => pre.1
  | false =>
    have prevalidated : ∀ hash : String, Keeps hashBytes (Sound hashBytes)
        (statement .database fun store => (prevalidate hash store, store))
        fun _ => Sound hashBytes := by
      intro hash
      apply keeps_statement fun _ pre => pre
      intro store pre
      exact ⟨fun _ _ => pre, fun _ _ => pre⟩
    have looped := keeps_forEach _ (fun _ => Sound hashBytes) (fun hash _ => prevalidated hash)
      hashes
    refine keeps_andThen (looped.mono (fun _ pre => pre.1) (fun _ _ post => post)
      (fun _ _ post => post) (fun _ post => post)) fun _ => ?_
    apply keeps_statement fun _ pre => pre
    intro store pre
    cases result : releaseAll hashes store with
    | ok after =>
      have soundAfter : Sound hashBytes after := sound_releaseAll pre result
      exact ⟨fun _ _ => soundAfter, fun _ failed => by cases failed⟩
    | error failure => exact ⟨fun _ succeeded => (by cases succeeded), fun _ _ => pre⟩

/-! ### `gc` -/

theorem unneeded_garbage {store : Store} (sound : Sound hashBytes store) (cutoff : String) :
    Unneeded hashBytes (store.garbage cutoff) store.log := by
  intro hash member
  obtain ⟨row, selected, rfl⟩ := mem_map.1 member
  have ⟨listed, condition⟩ := mem_filter.1 selected
  have unreferenced : row.refCount ≤ 0 ∧ row.createdAt < cutoff := by simpa using condition
  have counted := (sound row.hash).counted row (Table.get_of_mem listed)
  omega

theorem keeps_removeFile (hash : String) (known : List Event → Prop) : Keeps hashBytes
      (fun store => Sound hashBytes store ∧ demand hashBytes hash store.log ≤ 0 ∧ known store.log)
      (removeFile hash)
      fun _ store =>
        Sound hashBytes store ∧ demand hashBytes hash store.log ≤ 0 ∧ known store.log := by
  apply keeps_statement fun _ pre => pre.1
  rintro store ⟨sound, nonpos, logged⟩
  refine ⟨fun _ _ => ⟨?_, nonpos, logged⟩, fun _ failed => by cases failed⟩
  refine sound_forget hash sound nonpos ?_ ?_ ?_ ?_
  · rfl
  · intro other _
    rfl
  · intro other different
    exact blobFile_write_of_ne different
  · exact (sound hash).counted

theorem keeps_gc (cutoff : String) :
    Keeps hashBytes (Sound hashBytes) (gc cutoff) fun _ => Sound hashBytes := by
  refine keeps_andThen (keeps_lock fun _ pre => pre) fun _ => ?_
  have selected : Keeps hashBytes (Sound hashBytes)
      (statement .database fun store => (.ok (store.garbage cutoff), store))
      fun hashes store => Sound hashBytes store ∧ Unneeded hashBytes hashes store.log := by
    apply keeps_statement fun _ pre => pre
    intro store sound
    refine ⟨fun hashes result => ?_, fun _ failed => by cases failed⟩
    obtain rfl : store.garbage cutoff = hashes := by simpa using result
    exact ⟨sound, unneeded_garbage sound cutoff⟩
  refine keeps_andThen selected fun hashes => ?_
  have looped := @keeps_forEach hashBytes _ (fun hash => do
      requireValid hash
      if (← Program.observe fun store => store.files hash).isSome then removeFile hash
      deleteRow hash)
    (fun hashes store => Sound hashBytes store ∧ Unneeded hashBytes hashes store.log) ?_ hashes
  · exact looped.mono (fun _ pre => pre) (fun _ _ post => post.1) (fun _ _ post => post)
      (fun _ post => post)
  · intro hash hashes
    refine keeps_andThen (keeps_requireValid _ fun _ pre => pre.1) fun _ => ?_
    refine keeps_andThen (keeps_observe _) fun file => ?_
    have known : ∀ store : Store, Sound hashBytes store
        ∧ Unneeded hashBytes (hash :: hashes) store.log →
        Sound hashBytes store ∧ demand hashBytes hash store.log ≤ 0
          ∧ Unneeded hashBytes hashes store.log := by
      rintro store ⟨sound, unneeded⟩
      exact ⟨sound, unneeded hash mem_cons_self,
        fun other member => unneeded other (mem_cons_of_mem _ member)⟩
    cases file with
    | none =>
      exact (keeps_deleteRow hash (Unneeded hashBytes hashes)).mono
        (fun store pre => known store pre.1.1) (fun _ _ post => post) (fun _ _ post => post)
        (fun _ post => post)
    | some content =>
      refine keeps_andThen ((keeps_removeFile hash (Unneeded hashBytes hashes)).mono
        (fun store pre => known store pre.1.1) (fun _ _ post => post) (fun _ _ post => post)
        (fun _ post => post)) fun _ => ?_
      exact keeps_deleteRow hash _

/-! ### Runs -/

theorem sound_perform {call : Call} {before : Store} (script : List (Fault Leftover))
    (sound : Sound hashBytes before) (intact : Intact hashBytes call before) :
    Sound hashBytes (perform hashBytes call script before) := by
  have anyFault : ∀ fault ∈ script, True := fun _ _ => trivial
  cases call with
  | store data contentType now =>
    have triple := @keeps_store hashBytes data contentType now
    have always := triple.always (fun _ _ countable => countable.sound) ⟨sound, intact⟩ anyFault
    simp only [perform]
    split
    · rename_i returned
      exact (triple.ok_of_outcome ⟨sound, intact⟩ anyFault
        (Run.outcome_of_returned returned)).sound_stored
    · exact always
  | incrementRef hash =>
    have triple := @keeps_incrementRef hashBytes hash
    have always := triple.always (fun _ _ post => post.1) ⟨sound, intact⟩ anyFault
    simp only [perform]
    split
    · rename_i returned
      exact (triple.ok_of_outcome ⟨sound, intact⟩ anyFault (Run.outcome_of_returned returned)).2
    · exact always
  | decrementRef hash => exact (keeps_decrementRef hash).always (fun _ _ post => post) sound anyFault
  | release item hashes => exact (keeps_release item hashes).always (fun _ _ post => post) sound anyFault
  | gc cutoff => exact (keeps_gc cutoff).always (fun _ _ post => post) sound anyFault

variable (hashBytes)

def RunIntact : List (Call × List (Fault Leftover)) → Store → Prop
  | [], _ => True
  | (call, script) :: calls, before =>
    Intact hashBytes call before ∧ RunIntact calls (perform hashBytes call script before)

/-- Every blob with a reference out can be read back. -/
def Retrievable (store : Store) : Prop :=
  ∀ data recent earlier, store.log = recent ++ earlier → CountedFrom data recent earlier →
    .stored data ∈ recent →
    released (hashBytes data) recent < taken hashBytes (hashBytes data) recent →
    ∃ contentType, retrieve (hashBytes data) store = .ok (data, contentType)

variable {hashBytes}

theorem sound_performAll (calls : List (Call × List (Fault Leftover))) {before : Store}
    (sound : Sound hashBytes before) (intact : RunIntact hashBytes calls before) :
    Sound hashBytes (performAll hashBytes calls before) := by
  induction calls generalizing before with
  | nil => exact sound
  | cons step calls ih =>
    have ⟨call, script⟩ := step
    have ⟨here, later⟩ := intact
    exact ih (sound_perform script sound here) later

theorem retrievable_of_sound {store : Store} (injective : Function.Injective hashBytes)
    (sound : Sound hashBytes store) : Retrievable hashBytes store := by
  intro data recent earlier split counted _ outstanding
  have balance := balance_le_demand hashBytes counted
  rw [← split] at balance
  have needed : 0 < demand hashBytes (hashBytes data) store.log := by omega
  have covered := sound (hashBytes data)
  have ⟨content, file, hashed⟩ := covered.backed needed
  obtain rfl : content = data := injective hashed
  cases found : store.blobs.get (hashBytes content) with
  | none =>
    have absent := covered.absent found
    omega
  | some row =>
    unfold Store.blobFile at file
    split_ifs at file with valid
    refine ⟨row.contentType, ?_⟩
    simp only [retrieve, valid, if_true, found, file]

/-- **Stored blobs stay retrievable** in every run whose references are taken on intact rows. -/
theorem retrievable_of_runIntact (injective : Function.Injective hashBytes)
    (calls : List (Call × List (Fault Leftover)))
    (intact : RunIntact hashBytes calls Store.empty) :
    Retrievable hashBytes (performAll hashBytes calls Store.empty) :=
  retrievable_of_sound injective (sound_performAll calls (sound_empty hashBytes) intact)

/-! ### A blob that is not retrievable -/

def sampleHash (data : Bytes) : String :=
  if data = [] then "sha256:e3b0c44298fc1c149afbf4c8996fb92427ae41e4649b934ca495991b7852b855"
  else String.ofList ('#' :: data.map fun byte => Char.ofNat byte.toNat)

private theorem toNat_charOfByte (byte : UInt8) : (Char.ofNat byte.toNat).toNat = byte.toNat := by
  have small : byte.toNat < 256 := byte.toNat_lt
  have valid : byte.toNat.isValidChar := .inl (by omega)
  simp [Char.ofNat, valid, Char.toNat, Char.ofNatAux]

theorem sampleHash_injective : Function.Injective sampleHash := by
  intro left right same
  unfold sampleHash at same
  split_ifs at same with leftEmpty rightEmpty rightEmpty
  · rw [leftEmpty, rightEmpty]
  · exact absurd (congrArg (fun text => text.toList.head?) same) (by simp)
  · exact absurd (congrArg (fun text => text.toList.head?) same) (by simp)
  · have mapped := List.cons.inj (String.ofList_injective same)
    refine map_injective_iff.2 (fun byte other sameChar => ?_) mapped.2
    have codes := congrArg Char.toNat sameChar
    rw [toNat_charOfByte, toNat_charOfByte] at codes
    exact UInt8.toNat_inj.1 codes

def plainRun : List (Call × List (Fault Leftover)) :=
  [(.store [] "text/plain" "2026-01-01", []), (.store [] "text/plain" "2026-01-02", []),
    (.decrementRef (sampleHash []), []), (.gc "2026-02-01", [])]

theorem plainRun_retrieves : RunIntact sampleHash plainRun Store.empty
      ∧ ∃ contentType, retrieve (sampleHash []) (performAll sampleHash plainRun Store.empty)
          = .ok ([], contentType) := by
  have intact : RunIntact sampleHash plainRun Store.empty := by
    refine ⟨?_, ?_, trivial, trivial, trivial⟩
    · intro row found
      cases found
    · intro row found
      have first : (perform sampleHash (.store [] "text/plain" "2026-01-01") [] Store.empty).blobs.get
          (sampleHash []) = some ⟨sampleHash [], 0, "text/plain", "2026-01-01", 1⟩ := rfl
      obtain rfl := some.inj (first.symm.trans found)
      exact ⟨by decide, rfl⟩
  refine ⟨intact, ?_⟩
  exact retrievable_of_runIntact sampleHash_injective plainRun intact []
    [.released (sampleHash []), .stored [], .stored []] [] rfl (.inl rfl) (by decide) (by decide)

/-- A store that crashes before its file write, and the same store again. -/
def crashedStoreRun : List (Call × List (Fault Leftover)) :=
  [(.store [] "text/plain" "2026-01-01", [.proceed, .proceed, .proceed, .crash]),
    (.store [] "text/plain" "2026-01-02", [])]

theorem crashedStoreRun_not_retrievable : Function.Injective sampleHash
      ∧ (performAll sampleHash crashedStoreRun Store.empty).log = [.stored []]
      ∧ retrieve (sampleHash []) (performAll sampleHash crashedStoreRun Store.empty) = .error .io
      ∧ ¬Retrievable sampleHash (performAll sampleHash crashedStoreRun Store.empty) := by
  have unreadable : retrieve (sampleHash []) (performAll sampleHash crashedStoreRun Store.empty)
      = .error .io := by rfl
  refine ⟨sampleHash_injective, rfl, unreadable, fun retrievable => ?_⟩
  have ⟨contentType, found⟩ :=
    retrievable [] [.stored []] [] rfl (.inl rfl) (by decide) (by decide)
  rw [unreadable] at found
  cases found

end Clepsydra.Archive
