import OrderedTable.Entry.Record
import OrderedTable.Proofs.Ledger.Requests
import OrderedTable.Proofs.Table.Twins

/-!
# Where a key is kept does not show

Of two tables, one copies each key into a buffer of its own, and the other has a strategy that puts
it into the data (`Populate.EmbedsKey`). Nobody refuses them anything. Then every entry of the one
has a counterpart in the other with the same key (`Entry.Embeds`), the two ask for the same memory
but for the buffers, and everything that is done to the one can be done to the other with the same
outcome: `Table.run_keyStorage`.
-/

namespace OrderedTable

variable {σ σ' V N A : Type} {view : V → N}

/-! ## Entries -/

/-- The first owns a copy of its key, and the second has the same key in its data. Nothing else tells
them apart, if the data is seen through `view`. -/
structure Entry.Embeds (view : V → N) (e e' : Entry V) : Prop where
  key : e'.key = e.key
  keySize : e'.keySize = e.keySize
  view : view e'.data = view e.data
  owned : e.isKeyEmbedded = false
  embedded : e'.isKeyEmbedded = true

theorem Entry.exists_embeds {key : Key} {data data' : V} {project : V → Key}
    (hlength : key.length ≤ maxKeyLength) (hkey : project data' = key)
    (hview : view data' = view data) : ∃ e e', Entry.owned key data = .ok e ∧
      Entry.embedded data' project = .ok e' ∧ Entry.Embeds view e e' := by
  have hlength' : ((KeyStorage.embedded project).read data').length ≤ maxKeyLength := by
    rw [KeyStorage.read, hkey]
    exact hlength
  obtain ⟨e, howned, hstorage, hdata⟩ := Entry.exists_make_of_le (.owned key) data hlength
  obtain ⟨e', hembedded, hstorage', hdata'⟩ := Entry.exists_make_of_le _ data' hlength'
  have hsame : e'.key = e.key := by
    rw [Entry.key_of_make howned, Entry.key_of_make hembedded]
    exact hkey
  refine ⟨e, e', howned, hembedded, hsame, ?_, ?_, ?_, ?_⟩
  · refine UInt8.toNat_inj.1 ?_
    rw [e.keySize_eq, e'.keySize_eq]
    exact congrArg List.length hsame
  · rw [hdata, hdata', hview]
  · rw [Entry.isKeyEmbedded, hstorage]
    rfl
  · rw [Entry.isKeyEmbedded, hstorage']
    rfl

/-! ## Strategies -/

/-- The strategy puts the caller's key into the data, where `view` does not see it and the entry
reads it. It asks for nothing. -/
def Populate.EmbedsKey (populate : Populate (σ × Gate.Log) V) (view : V → N) : Prop :=
  ∀ gate data key s log, ∃ data' project s',
    populate gate data key (s, log) = (Entry.embedded data' project, s', log) ∧
      project data' = key ∧ view data' = view data

theorem Populate.embedsKey_insideRecord :
    (Populate.insideRecord (σ := σ × Gate.Log)).EmbedsKey Record.number :=
  fun _ data key s _ => ⟨data.hold key, Record.held, s, rfl, rfl, rfl⟩

theorem Populate.EmbedsKey.storesKey {policy : Policy (σ × Gate.Log) V}
    (h : policy.populate.EmbedsKey view) : policy.StoresKey := by
  intro data key env e env' hpopulate
  obtain ⟨data', project, s', hembedded, hkey, -⟩ := h policy.gate data key env.1 env.2
  have hmade : Entry.embedded data' project = .ok e :=
    (congrArg Prod.fst (hembedded.symm.trans hpopulate) :)
  exact (Entry.key_of_make hmade).trans hkey

/-! ## Requests -/

namespace Gate

/-- The gate grants whatever it is asked. -/
def IsOpen (gate : Gate σ) : Prop := ∀ request s, (gate request s).1 = .ok ()

theorem isOpen_always : (always (σ := σ)).IsOpen := fun _ _ => rfl

/-- The second has been asked what the first has been asked, but for the key buffers. -/
def AskedButBuffers (env : σ × Log) (env' : σ' × Log) : Prop :=
  env'.2 = env.2.filter fun asked => asked.1.site ≠ .key

variable {gate : Gate σ} {gate' : Gate σ'} {env : σ × Log} {env' : σ' × Log}

theorem IsOpen.exists_granted (h : gate.IsOpen) (env : σ × Log) (request : Request) :
    ∃ s, gate.recorded request env = (.ok (), s, env.2 ++ [(request, .ok ())]) :=
  ⟨_, recorded_eq (Prod.ext (h request env.1) rfl)⟩

theorem AskedButBuffers.exists_granted (henv : AskedButBuffers env env') (h : gate.IsOpen)
    (h' : gate'.IsOpen) (request : Request) (hsite : request.site ≠ .key) :
    ∃ env₁ env₁', gate.recorded request env = (.ok (), env₁) ∧
      gate'.recorded request env' = (.ok (), env₁') ∧ AskedButBuffers env₁ env₁' := by
  obtain ⟨s, hgate⟩ := h.exists_granted env request
  obtain ⟨s', hgate'⟩ := h'.exists_granted env' request
  refine ⟨_, _, hgate, hgate', ?_⟩
  have hlog : env'.2 = env.2.filter fun asked => asked.1.site ≠ .key := henv
  simp [AskedButBuffers, hlog, hsite]

theorem AskedButBuffers.exists_buffer (henv : AskedButBuffers env env') (h : gate.IsOpen)
    (bytes : Nat) : ∃ env₁, gate.recorded (.key bytes) env = (.ok (), env₁) ∧
      AskedButBuffers env₁ env' := by
  obtain ⟨s, hgate⟩ := h.exists_granted env (.key bytes)
  refine ⟨_, hgate, ?_⟩
  have hlog : env'.2 = env.2.filter fun asked => asked.1.site ≠ .key := henv
  simp [AskedButBuffers, hlog, Request.site]

end Gate

/-! ## Making entries -/

section

variable {gate : Gate σ} {gate' : Gate σ'} {populate : Populate (σ' × Gate.Log) V}
  {env : σ × Gate.Log} {env' : σ' × Gate.Log} {hash : Key → UInt64}

theorem Gate.AskedButBuffers.attempt (henv : Gate.AskedButBuffers env env') (h : gate.IsOpen)
    (h' : gate'.IsOpen) (hp : populate.EmbedsKey view) (data : V) (key : Key) :
    let made := (Policy.guarded hash gate.recorded).attempt data key env
    let made' := ({ hash, gate := gate'.recorded, populate } : Policy _ V).attempt data key env'
    Attempted (Entry.Embeds view) made.1 made'.1 ∧ Gate.AskedButBuffers made.2 made'.2 := by
  intro made made'
  rcases Nat.lt_or_ge maxKeyLength key.length with hlong | hlength
  · have hmade : made = _ := Policy.attempt_of_tooLong hlong
    have hmade' : made' = _ := Policy.attempt_of_tooLong hlong
    rw [hmade, hmade']
    exact ⟨.rejected _, henv⟩
  obtain ⟨env₁, env₁', hentry, hentry', henv₁⟩ :=
    henv.exists_granted h h' .entry (by decide)
  obtain ⟨env₂, hbuffer, henv₂⟩ := henv₁.exists_buffer h key.length
  obtain ⟨data', project, s', hpopulate, hkey, hview⟩ :=
    hp gate'.recorded data key env₁'.1 env₁'.2
  obtain ⟨e, e', howned, hembedded, he⟩ := Entry.exists_embeds hlength hkey hview
  have hmade : made = (.ok e, env₂) := by
    change Policy.attempt _ data key env = _
    rw [Policy.attempt_of_le hlength, Policy.guarded]
    dsimp only
    rw [hentry]
    dsimp only
    rw [Populate.copyKey, hbuffer, howned]
  have hmade' : made' = (.ok e', s', env₁'.2) := by
    change Policy.attempt _ data key env' = _
    rw [Policy.attempt_of_le hlength]
    dsimp only
    rw [hentry', ← hembedded]
    exact hpopulate
  rw [hmade, hmade']
  exact ⟨.made he, henv₂⟩

theorem Policy.twins_of_embedsKey (h : gate.IsOpen) (h' : gate'.IsOpen)
    (hp : populate.EmbedsKey view) (hash : Key → UInt64) :
    (Policy.guarded hash gate.recorded).Twins (Entry.Embeds view) Gate.AskedButBuffers
      { hash, gate := gate'.recorded, populate } where
  hash := rfl
  storesKey := Policy.storesKey_of_copyKey rfl
  storesKey' := hp.storesKey
  made data key _ _ henv := (henv.attempt h h' hp data key).1
  env data key _ _ henv := (henv.attempt h h' hp data key).2

end

/-! ## Building -/

theorem Buckets.create_alike {ι : Type} {gate : Gate σ} {gate' : Gate σ'} {env : σ × Gate.Log}
    {env' : σ' × Gate.Log} (h : gate.IsOpen) (h' : gate'.IsOpen)
    (henv : Gate.AskedButBuffers env env') (headSize : Nat) (bits : UInt32) (heap : Heap) :
    let made := create (ι := ι) headSize bits gate.recorded heap env
    let made' := create (ι := ι) headSize bits gate'.recorded heap env'
    made'.1 = made.1 ∧ Gate.AskedButBuffers made.2 made'.2 := by
  obtain ⟨env₁, env₁', htable, htable', henv₁⟩ :=
    henv.exists_granted h h' .table (by decide)
  simp only [create, htable, htable']
  cases count? bits with
  | none => exact ⟨rfl, henv₁⟩
  | some count =>
    dsimp only
    cases word? (count * headSize) with
    | none => exact ⟨rfl, henv₁⟩
    | some bytes =>
      have hsite : Site.buckets ≠ .key := by decide
      obtain ⟨env₂, env₂', hbuckets, hbuckets', henv₂⟩ :=
        henv₁.exists_granted h h' (.buckets bytes) hsite
      simp only [hbuckets, hbuckets']
      cases heap.reserve bytes with
      | error cause => exact ⟨rfl, henv₂⟩
      | ok => exact ⟨rfl, henv₂⟩

namespace Table

variable [Arena A (Node V)]

theorem build_alike {gate : Gate σ} {gate' : Gate σ'} {env : σ × Gate.Log} {env' : σ' × Gate.Log}
    (h : gate.IsOpen) (h' : gate'.IsOpen) (henv : Gate.AskedButBuffers env env')
    (hash : Key → UInt64) (populate : Populate (σ × Gate.Log) V)
    (populate' : Populate (σ' × Gate.Log) V) (bits : UInt32) (heap : Heap) :
    let policy : Policy (σ × Gate.Log) V := { hash, gate := gate.recorded, populate }
    let policy' : Policy (σ' × Gate.Log) V :=
      { hash, gate := gate'.recorded, populate := populate' }
    let opening := build bits policy heap env A
    let opening' := build bits policy' heap env' A
    opening'.notices = opening.notices ∧ Gate.AskedButBuffers opening.env opening'.env ∧
      ((∃ cause, opening.result = .error cause ∧ opening'.result = .error cause) ∨
        ∃ t t', opening.result = .ok t ∧ opening'.result = .ok t') := by
  obtain ⟨env₁, env₁', hcontainer, hcontainer', henv₁⟩ :=
    henv.exists_granted h h' .container (by decide)
  obtain ⟨hresult, henv₂⟩ :=
    Buckets.create_alike (ι := NodeId) h h' henv₁ NodeId.placeSize bits heap
  simp only [build, hcontainer, hcontainer']
  revert hresult henv₂
  rcases Buckets.create (ι := NodeId) NodeId.placeSize bits gate.recorded heap env₁ with
    ⟨result, env₂⟩
  rcases Buckets.create (ι := NodeId) NodeId.placeSize bits gate'.recorded heap env₁' with
    ⟨result', env₂'⟩
  rintro rfl henv₂
  cases result' with
  | error cause => exact ⟨rfl, henv₂, .inl ⟨cause, rfl, rfl⟩⟩
  | ok buckets => exact ⟨rfl, henv₂, .inr ⟨_, _, rfl, rfl⟩⟩

end Table

/-- The two buildings report the same and fail for the same reason; or both give a table, and
whatever is done to the two goes the same way, as long as no predicate tells related entries apart. -/
structure Opening.RunsLike [Arena A (Node V)] [Inhabited V] (E : Entry V → Entry V → Prop)
    (R : σ → σ' → Prop) (opening : Opening σ V A) (opening' : Opening σ' V A) : Prop where
  notices : opening'.notices = opening.notices
  env : R opening.env opening'.env
  result : (∃ cause, opening.result = .error cause ∧ opening'.result = .error cause) ∨
    ∃ t t', opening.result = .ok t ∧ opening'.result = .ok t' ∧
      ∀ calls : List (Call V), (∀ c ∈ calls, c.Overlooks E) → ∃ f, Table.RunsLike E R f t t' calls

namespace Table

variable [Arena A (Node V)] [LawfulArena A (Node V)] [Inhabited V] {gate : Gate σ} {gate' : Gate σ'}
  {populate : Populate (σ' × Gate.Log) V}

/-- Where nothing is refused, a table that copies its keys and one whose strategy keeps them in the
data do the same, call by call, under any hash and with any number of buckets. They ask for the same
memory, apart from the key buffers. -/
theorem run_keyStorage (h : gate.IsOpen) (h' : gate'.IsOpen) (hp : populate.EmbedsKey view)
    (hash : Key → UInt64) (bits : UInt32) (heap : Heap) (s : σ) (s' : σ') :
    Opening.RunsLike (Entry.Embeds view) Gate.AskedButBuffers
      (build bits (.guarded hash gate.recorded) heap (s, []) A)
      (build bits { hash, gate := gate'.recorded, populate } heap (s', []) A) := by
  have htwins := Policy.twins_of_embedsKey h h' hp hash
  have henv : Gate.AskedButBuffers (s, []) (s', []) := rfl
  obtain ⟨hnotices, henv, hresult⟩ :=
    build_alike (A := A) h h' henv hash Populate.copyKey populate bits heap
  refine ⟨hnotices, henv, ?_⟩
  rcases hresult with hfailed | ⟨t, t', hbuild, hbuild'⟩
  · exact .inl hfailed
  refine .inr ⟨t, t', hbuild, hbuild', fun calls hcalls => ?_⟩
  obtain rfl := eq_empty_of_build hbuild
  obtain rfl := eq_empty_of_build hbuild'
  have hempty := Twins.of_empty (A := A) htwins henv bits
  obtain ⟨f, -, hrun⟩ := hempty.exists_runsLike (fun _ _ he => he.key) calls hcalls
  exact ⟨f, hrun⟩

/-- The keys are kept inside records. One of the entries is replaced, and the predicate goes by the
number. -/
theorem run_keyStorage_insideRecord :
    let hash : Key → UInt64 := fun key => key.length.toUInt64
    let gate : Gate Unit := Gate.always
    let populate : Populate (Unit × Gate.Log) Record := Populate.insideRecord
    let policy := Policy.guarded hash gate.recorded
    let policy' : Policy (Unit × Gate.Log) Record := { hash, gate := gate.recorded, populate }
    let opening := build 1 policy .ofProcess ((), [])
    let opening' := build 1 policy' .ofProcess ((), [])
    let calls : List (Call Record) := [.insert ⟨1, []⟩ [97], .insert ⟨2, []⟩ [97, 98],
      .replace ⟨3, []⟩ [97], .retain fun _ e => e.data.number = 3, .getByKey [97], .occupancy]
    gate.IsOpen ∧ populate.EmbedsKey Record.number ∧
      (∀ c ∈ calls, c.Overlooks (Entry.Embeds Record.number)) ∧
      ∃ t t' f, opening.result = .ok t ∧ opening'.result = .ok t' ∧
        RunsLike (Entry.Embeds Record.number) Gate.AskedButBuffers f t t' calls := by
  intro hash gate populate policy policy' opening opening' calls
  have hopen : gate.IsOpen := Gate.isOpen_always
  have hp : populate.EmbedsKey Record.number := Populate.embedsKey_insideRecord
  have hcalls : ∀ c ∈ calls, c.Overlooks (Entry.Embeds Record.number) := by
    simp only [calls, List.forall_mem_cons, Call.Overlooks]
    refine ⟨trivial, trivial, trivial, fun _ _ e e' _ he => ?_, trivial, trivial, nofun⟩
    rw [he.view]
  obtain ⟨-, -, ⟨cause, hfailed, -⟩ | ⟨t, t', hbuild, hbuild', hruns⟩⟩ :=
    run_keyStorage (A := SlotArena (Node Record)) hopen hopen hp hash 1 .ofProcess () ()
  · cases hfailed
  obtain ⟨f, hrun⟩ := hruns calls hcalls
  exact ⟨hopen, hp, hcalls, t, t', f, hbuild, hbuild', hrun⟩

end Table

end OrderedTable
