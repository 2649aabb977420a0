import Forge.Relay.Inv

/-!
# What the relays deliver

A relay keeps to `Permitted` because it has locked the rows it publishes (`Holding`), so that they are
still pending when it does; commands publish and mark nothing at all (`Plain`). Whatever relays and
commands do together, in any interleaving and with crashes and failures anywhere, `RelayInv` therefore
holds (`relay_delivery`).
-/

namespace Forge

open Catalog

namespace relay

/-- The calls that are permitted everywhere. -/
def Plain : Call → Prop
  | .publish .. => False
  | .exec _ (.markPublished _) => False
  | _ => True

section
variable {subjectPrefix : GoString} {w w' : World} {p : Pid}

theorem Plain.permitted {op : Call} (h : Plain op) (w : World) : Permitted subjectPrefix op w := by
  cases op with
  | publish => exact h.elim
  | exec db q => cases q <;> first | exact trivial | exact h.elim
  | _ => exact trivial

/-- The judgement of a process among relays and commands. -/
abbrev Delivers {α : Type} (subjectPrefix : GoString) (p : Pid) (prog : Proc Call Call.Ans α) (w : World) :
    Prop :=
  prog.Rg (World.call p) (RelayInv subjectPrefix) (Others p) (Permitted subjectPrefix) (fun _ _ => True) w

theorem delivers_of_plain {α : Type} {prog : Proc Call Call.Ans α} (h : prog.Uses Plain) (w : World) :
    Delivers subjectPrefix p prog w :=
  h.rg (fun _ w hop hI => ⟨hop.permitted w, fun _ _ _ hc => hI.call (hop.permitted w) hc⟩) w

theorem delivers_call {α : Type} {op : Call} {k : op.Ans → Proc Call Call.Ans α}
    (h : ∀ w₁, Others p w w₁ → RelayInv subjectPrefix w₁ → Permitted subjectPrefix op w₁ ∧
      ∀ c a w₂, World.call p op c w₁ = some (a, w₂) → RelayInv subjectPrefix w₂ →
        Delivers subjectPrefix p (k a) w₂) : Delivers subjectPrefix p (.call op k) w := by
  intro w₁ ho hI
  obtain ⟨hp, hk⟩ := h w₁ ho hI
  exact ⟨hp, fun c a w₂ hc => ⟨hI.call hp hc, hk c a w₂ hc (hI.call hp hc)⟩⟩

/-! ### The rows a relay has claimed -/

/-- `p` is in a transaction in which it has claimed `rows`; they are pending in the committed table. -/
structure Holding (p : Pid) (rows : List OutboxRow) (w : World) : Prop where
  tx : ∃ tx, w.txs p = some tx ∧ tx.writes = [] ∧ ∀ o ∈ rows, o.id ∈ tx.claimed
  row : ∀ o ∈ rows, w.db.outboxRow o.id = some o ∧ o.published_at = none

theorem Holding.start (w : World) (t : Timestamptz) (ks : List Key) : Holding p [] (w.put p (.start t) ks) :=
  ⟨⟨_, Function.update_self .., rfl, nofun⟩, nofun⟩

/-- The rows are locked, so nobody else changes them. -/
theorem Holding.others {rows : List OutboxRow} (h : Holding p rows w) (hw : w.LocksOk) (ho : Others p w w') :
    Holding p rows w' := by
  obtain ⟨tx, htx, hws, hcl⟩ := h.tx
  refine ⟨⟨tx, ho.tx.trans htx, hws, hcl⟩, fun o hm => ⟨?_, (h.row o hm).2⟩⟩
  have hkey : Key.outbox o.id ∈ tx.keys := List.mem_append_right _ (List.mem_map_of_mem (hcl o hm))
  have hagree : w'.db.outboxRow o.id = w.db.outboxRow o.id := ho.frame _ (hw.held p tx htx _ hkey)
  exact hagree.trans (h.row o hm).1

/-- The claiming query takes the committed version of a row, which is pending. -/
theorem claimable_row {tx : Tx} {id : UUID} {o : OutboxRow} (h : w.claimable p tx id = some o)
    (hws : tx.writes = []) : w.db.outboxRow id = some o ∧ o.published_at = none := by
  unfold World.claimable Tx.view at h
  rw [hws] at h
  split at h
  · rename_i o' hrow
    split at h <;> cases h
    rename_i hc
    exact ⟨hrow, hc.1⟩
  · cases h

/-- The next row of the claiming query is taken. -/
theorem Holding.take {rows rest : List OutboxRow} {tx : Tx} {o o' : OutboxRow} (h : Holding p rows w)
    (htx : w.txs p = some tx) (hclaim : w.claimable p tx o.id = some o') :
    Holding p (rows ++ [o']) ((w.setCursor p rest).put p { tx with claimed := tx.claimed ++ [o.id] }
      [.outbox o.id]) := by
  obtain ⟨tx₀, htx₀, hws, hcl⟩ := h.tx
  cases htx.symm.trans htx₀
  obtain ⟨hrow, hpending⟩ := claimable_row hclaim hws
  have hid : o'.id = o.id := by simpa using List.find?_some hrow
  refine ⟨⟨_, Function.update_self .., hws, fun x hx => ?_⟩, fun x hx => ?_⟩
  · rcases List.mem_append.1 hx with hx | hx
    · exact List.mem_append_left _ (hcl x hx)
    · rw [List.mem_singleton.1 hx, hid]
      exact List.mem_append_right _ (List.mem_singleton_self _)
  · rcases List.mem_append.1 hx with hx | hx
    · exact h.row x hx
    · rw [List.mem_singleton.1 hx, hid]
      exact ⟨hrow, hpending⟩

/-- A call that leaves the committed tables and the transaction of `p` alone. -/
theorem Holding.congr {rows : List OutboxRow} (h : Holding p rows w) (htx : w'.txs p = w.txs p)
    (hdb : w'.db = w.db) : Holding p rows w' :=
  ⟨htx ▸ h.tx, hdb ▸ h.row⟩

section
variable {α : Type} {rows : List OutboxRow}

theorem delivers_fetch {limit : Nat} {k : Except Err (List Record) → Proc Call Call.Ans α}
    (hI : RelayInv subjectPrefix w) (hw : Holding p rows w)
    (herr : ∀ e w', Delivers subjectPrefix p (k (.error e)) w')
    (hok : ∀ rows' w', RelayInv subjectPrefix w' → Holding p (rows ++ rows') w' →
      Delivers subjectPrefix p (k (.ok (rows'.map scan))) w') :
    Delivers subjectPrefix p ((fetch limit).run >>= k) w := by
  induction limit generalizing rows w k with
  | zero => exact hok [] w hI (by simpa using hw)
  | succ limit ih =>
    simp only [fetch, M.run_bind_bind]
    rw [run_rowsNext_bind]
    refine delivers_call fun w₁ ho hI₁ => ⟨trivial, fun c a w₂ hc hI₂ => ?_⟩
    have h₁ := hw.others hI.locks ho
    cases World.call_did hc with
    | nextFault => exact herr _ _
    | noRow => exact hok [] w₁ hI₁ (by simpa using h₁)
    | @row tx o o' rest htx _ hclaim =>
      simp only [M.run_bind_bind]
      refine ih hI₂ (h₁.take htx hclaim) (fun e w' => herr e w') fun rows' w' hI' h' => ?_
      rw [List.append_assoc] at h'
      exact hok (o' :: rows') w' hI' h'

/-- While it publishes the rows one after another, a relay keeps all of them. -/
theorem delivers_publishAll {r : Relay} (rows' : List OutboxRow)
    {k : Except Err (List GoString) → Proc Call Call.Ans α} (hI : RelayInv r.subjectPrefix w)
    (hw : Holding p rows w) (hsub : ∀ o ∈ rows', o ∈ rows)
    (herr : ∀ e w', Delivers r.subjectPrefix p (k (.error e)) w')
    (hok : ∀ w', RelayInv r.subjectPrefix w' → w.bus.accepted <+: w'.bus.accepted →
      (∀ o ∈ rows', w'.bus.Accepted o.id.String) → Delivers r.subjectPrefix p (k (.ok (rows'.map (·.id.String)))) w') :
    Delivers r.subjectPrefix p ((publishAll (fun rec => Publish (r.subjectFor rec) rec.ID rec.Payload)
      (rows'.map scan)).run >>= k) w := by
  induction rows' generalizing w k with
  | nil => exact hok w hI (List.prefix_refl _) nofun
  | cons o rows' ih =>
    simp only [List.map_cons, publishAll, M.run_bind_bind, M.run_lift_bind]
    rw [run_Publish_bind]
    have ho' : o ∈ rows := hsub o List.mem_cons_self
    refine delivers_call fun w₁ ho hI₁ => ?_
    have h₁ := hw.others hI.locks ho
    refine ⟨⟨o.id, o, (h₁.row o ho').1, (h₁.row o ho').2, rfl⟩, fun c a w₂ hc hI₂ => ?_⟩
    cases World.call_did hc with
    | timeout => exact herr _ _
    | publish _ _ _ t =>
      have hpre : w₁.bus.accepted <+: (w₁.bus.accept (message r.subjectPrefix o) t).accepted :=
        List.prefix_append _ _
      simp only [M.run_bind_bind]
      refine ih hI₂ (h₁.congr rfl rfl) (fun x hx => hsub x (List.mem_cons_of_mem _ hx))
        (fun e w' => herr e w') fun w' hI' hacc hids => ?_
      refine hok w' hI' (ho.accepted.trans (hpre.trans hacc)) fun x hx => ?_
      rcases List.mem_cons.1 hx with rfl | hx
      · exact Bus.Accepted.mono ⟨_, List.mem_append_right _ (List.mem_singleton_self _), rfl⟩ hacc
      · exact hids x hx

theorem delivers_ClaimBatch {r : Relay} {k : Except Err Nat → Proc Call Call.Ans α}
    (hk : ∀ a w', Delivers r.subjectPrefix p (k a) w') (w : World) :
    Delivers r.subjectPrefix p ((ClaimBatch r.batch fun rec =>
      Publish (r.subjectFor rec) rec.ID rec.Payload).run >>= k) w := by
  have hroll : ∀ a w', Delivers r.subjectPrefix p (.call .rollback fun _ => k a) w' := fun a w' =>
    delivers_call fun w₁ _ _ => ⟨trivial, fun _ _ w₂ _ _ => hk a w₂⟩
  rw [run_ClaimBatch_bind]
  refine delivers_call fun w₁ _ _ => ⟨trivial, fun c a w₂ hc hI₂ => ?_⟩
  cases World.call_did hc with
  | beginFault => exact hk _ _
  | begin t _ =>
    have h₂ := Holding.start w₁ (p := p) (pgTime t) []
    simp only [claimTx, M.run_bind_bind]
    rw [run_claimQuery_bind]
    refine delivers_call fun w₃ ho₃ _ => ⟨trivial, fun c a w₄ hc hI₄ => ?_⟩
    cases World.call_did hc with
    | claimFault => exact hroll _ _
    | claim =>
      refine delivers_fetch hI₄ ((h₂.others hI₂.locks ho₃).congr rfl rfl) (fun e w' => hroll _ w')
        fun rows w₅ hI₅ h₅ => ?_
      cases rows with
      | nil => exact hroll _ _
      | cons o rows =>
        simp only [List.map_cons, M.run_bind_bind]
        refine delivers_publishAll (o :: rows) hI₅ h₅ (fun _ => id) (fun e w' => hroll _ w')
          fun w₆ hI₆ _ hids => ?_
        dsimp only
        rw [M.run_exec_bind]
        refine delivers_call fun w₇ ho₇ _ => ⟨fun id hid => ?_, fun c a w₈ _ _ => ?_⟩
        · obtain ⟨x, hx, rfl⟩ := List.mem_map.1 hid
          exact (hids x hx).mono ho₇.accepted
        · cases a with
          | error e => exact hroll _ _
          | ok a =>
            refine delivers_call fun w₉ _ _ => ⟨trivial, fun c a w' _ _ => ?_⟩
            cases a <;> exact hk _ _

theorem delivers_DrainOnce (r : Relay) (fuel total : Nat) (w : World) :
    Delivers r.subjectPrefix p (r.DrainOnce fuel total) w := by
  induction fuel generalizing total w with
  | zero => exact fun _ _ _ => trivial
  | succ fuel ih =>
    refine delivers_ClaimBatch (fun a w' => ?_) w
    cases a with
    | error e => exact fun _ _ _ => trivial
    | ok n =>
      dsimp only
      split
      · exact fun _ _ _ => trivial
      · exact ih (total + n) w'

theorem delivers_Run (r : Relay) (fuel ticks : Nat) (w : World) :
    Delivers r.subjectPrefix p (r.Run fuel ticks) w := by
  induction ticks generalizing w with
  | zero => exact fun _ _ _ => trivial
  | succ ticks ih =>
    exact Proc.Rg.bind (Others.refl p) ((delivers_DrainOnce r fuel 0 w).mono fun _ w' _ _ => ih w')

end

end

/-! ### Commands -/

/-- The calls of a command: it runs statements in a transaction, and marks nothing. -/
def OfCommand : Call → Prop
  | .now | .newID | .begin | .commit | .rollback => True
  | .exec .tx (.markPublished _) => False
  | .exec .tx _ => True
  | _ => False

theorem OfCommand.plain {op : Call} (h : OfCommand op) : Plain op := by
  cases op with
  | exec db q => cases db <;> cases q <;> first | exact trivial | exact h.elim
  | publish => exact h.elim
  | _ => exact trivial

theorem ofCommand_Append (events : List Event) : (Append events).run.Uses OfCommand := by
  induction events with
  | nil => exact trivial
  | cons e events ih =>
    exact M.uses_bind (M.uses_perform trivial) fun _ => M.uses_bind (M.uses_exec trivial) fun _ => ih

section
variable [UuidLib]

theorem ofCommand_registerTx (svc : Service) : (registerTx svc).run.Uses OfCommand := by
  refine M.uses_bind (M.uses_lift (M.uses_bind (M.uses_exec trivial) fun _ => trivial)) fun r => ?_
  cases r with
  | ok s => exact trivial
  | error e =>
    dsimp only
    split
    · exact trivial
    · refine M.uses_bind ?_ fun _ => M.uses_bind (ofCommand_Append _) fun _ => trivial
      exact M.uses_bind (M.uses_exec trivial) fun _ =>
        M.uses_bind (M.uses_perform trivial) fun _ => M.uses_exec trivial

theorem ofCommand_Update (s : Service) (expectedVersion : Int) : (Update s expectedVersion).run.Uses OfCommand := by
  refine M.uses_bind (M.uses_exec trivial) fun n => ?_
  split
  · refine M.uses_bind (M.uses_lift (M.uses_bind (M.uses_exec trivial) fun _ => trivial)) fun r => ?_
    cases r <;> exact trivial
  · exact M.uses_bind (M.uses_exec trivial) fun _ =>
      M.uses_bind (M.uses_perform trivial) fun _ => M.uses_exec trivial

theorem ofCommand_mutateTx (id : ServiceID) (ev : Int) (m : Mutation) : (mutateTx id ev m).run.Uses OfCommand :=
  M.uses_bind (M.uses_bind (M.uses_exec trivial) fun _ => trivial) fun _ =>
    M.uses_bind (M.uses_perform trivial) fun _ => M.uses_bind trivial fun _ =>
      M.uses_bind (ofCommand_Update _ _) fun _ => M.uses_bind (ofCommand_Append _) fun _ => trivial

theorem ofCommand_run (c : CatalogCommand) : c.run.run.Uses OfCommand := by
  cases c with
  | register inp =>
    show (RegisterService inp).run.Uses OfCommand
    rw [RegisterService_eq]
    exact M.uses_bind trivial fun _ => M.uses_bind (M.uses_perform trivial) fun _ =>
      M.uses_bind (M.uses_perform trivial) fun _ =>
        uses_Execute (ofCommand_registerTx _) trivial trivial trivial
  | mutation cmd =>
    show cmd.run.run.Uses OfCommand
    rw [cmd.run_eq]
    exact M.uses_bind trivial fun _ => uses_Execute (ofCommand_mutateTx _ _ _) trivial trivial trivial

/-! ### Relays and commands together -/

inductive Party
  | relayer (r : Relay) (fuel ticks : Nat)
  | command (c : CatalogCommand)

def Party.proc : Party → Proc Call Call.Ans Unit
  | relayer r fuel ticks => r.Run fuel ticks
  | command c => do
    let _ ← c.run.run
    pure ()

/-- Any relays and commands, started on the tables `db` with an empty stream. -/
def parties (db : Tables) (ps : Pid → Option Party) : Pool Pid Call Call.Ans Unit World :=
  ⟨.init db, fun p => (ps p).map Party.proc⟩

theorem Party.delivers {subjectPrefix : GoString} {x : Party}
    (hx : ∀ r fuel ticks, x = .relayer r fuel ticks → r.subjectPrefix = subjectPrefix) (p : Pid) (w : World) :
    Delivers subjectPrefix p x.proc w := by
  cases x with
  | relayer r fuel ticks => exact hx r fuel ticks rfl ▸ delivers_Run r fuel ticks w
  | command c => exact delivers_of_plain (Proc.Uses.bind (f := fun _ => .ret ()) ((ofCommand_run c).mono fun _ => OfCommand.plain) fun _ => trivial) w

/-- In every state that relays and commands reach in any interleaving, with publishes and statements
failing anywhere and processes crashing at any point: a row is marked published only if a message with
its id was accepted; every accepted message is that of a committed row; no row is claimed by two open
transactions; a message is only ever published for a row that is not marked; and an id whose messages
were accepted inside one deduplication window is in the stream at most once. -/
theorem relay_delivery {subjectPrefix : GoString} {db : Tables} {ps : Pid → Option Party}
    {ms : List (Move Pid Choice)} {s : Pool Pid Call Call.Ans Unit World}
    (hdb : ∀ o ∈ db.outbox, o.published_at = none)
    (hps : ∀ p r fuel ticks, ps p = some (.relayer r fuel ticks) → r.subjectPrefix = subjectPrefix)
    (hrun : (parties db ps).run World.machine ms = some s) :
    (∀ o ∈ s.world.db.outbox, o.published_at ≠ none → s.world.bus.Accepted o.id.String) ∧
    (∀ x ∈ s.world.bus.accepted, ∃ o ∈ s.world.db.outbox, x.1 = message subjectPrefix o) ∧
    (∀ p q tx tx' id, s.world.txs p = some tx → s.world.txs q = some tx' →
      id ∈ tx.claimed → id ∈ tx'.claimed → p = q) ∧
    (∀ p subject msgID data k, s.procs p = some (.call (.publish subject msgID data) k) →
      ∀ id o, s.world.db.outboxRow id = some o → id.String = msgID → o.published_at = none) ∧
    (∀ id, s.world.bus.InWindow id → (s.world.bus.stream.filter (·.1.id = id)).length ≤ 1) := by
  have hstart : (parties db ps).AllRg World.machine (RelayInv subjectPrefix) Others (Permitted subjectPrefix)
      fun _ _ _ => True := by
    intro p prog hp
    obtain ⟨x, hx, rfl⟩ := Option.map_eq_some_iff.1 hp
    exact x.delivers (fun r fuel ticks he => hps p r fuel ticks (he ▸ hx)) p _
  obtain ⟨hI, hs⟩ := Pool.rg_run (M := World.machine) (R := Others) (fun p w => .refl p w)
    (fun p _ _ _ h h' => h.trans h')
    (fun p q op c a w w' hpq hI hc => (World.call_effect hc).others hI.locks hpq)
    (fun p w hI => ⟨hI.endTx p, fun q hpq => World.crash_others hpq⟩)
    (fun c w w' hI hc => ⟨hI.env hc, fun q => World.env_others hc q⟩) (RelayInv.init hdb) hstart hrun
  refine ⟨hI.marked, hI.accepted, fun p q tx tx' id htx htx' hid hid' => ?_,
    fun p subject msgID data k hk id o ho hid => ?_, hI.dedup.once⟩
  · exact hI.locks.excl p q (.outbox id)
      (hI.locks.held p tx htx _ (List.mem_append_right _ (List.mem_map_of_mem hid)))
      (hI.locks.held q tx' htx' _ (List.mem_append_right _ (List.mem_map_of_mem hid')))
  · obtain ⟨id', o', ho', hpending, hm⟩ := hs.call (fun p w => .refl p w) hI hk
    have hid' : id'.String = id.String := by
      have := congrArg Msg.id hm
      rw [hid, show msgID = o'.id.String from this, show o'.id = id' by simpa using List.find?_some ho']
    rw [UUID.String_inj hid', ho] at ho'
    cases ho'
    exact hpending

end

/-! ### A run -/

attribute [local instance] UuidLib.canonical

def sampleRelay : Relay := ⟨"forge.events", 1, by decide⟩

/-- A registration and two relays. -/
def sampleParties (p : Pid) : Option Party :=
  if p = 0 then some (.command (.register ⟨UUID.String ⟨2⟩, "api", [], 1, [], "core", []⟩))
  else if p ≤ 2 then some (.relayer sampleRelay 1 1)
  else none

/-- The registration commits; the first relay publishes its event and crashes; the second one finds the
row pending, publishes it again and marks it. -/
def sampleMoves : List (Move Pid Choice) :=
  ([.uuid ⟨1⟩, .time 0, .time 0, .ok, .ok, .uuid ⟨10⟩, .ok, .uuid ⟨11⟩, .ok, .ok] : List Choice).map (.call 0) ++
    ([.time 0, .ok, .ok, .time 10] : List Choice).map (.call 1) ++ [.crash 1] ++
    ([.time 0, .ok, .ok, .time 20, .ok, .ok] : List Choice).map (.call 2)

theorem relay_delivery_sample : ∃ s, (parties .empty sampleParties).run World.machine sampleMoves = some s ∧
    s.world.bus.accepted.length = 2 ∧ s.world.bus.stream.length = 1 ∧
    (∀ o ∈ s.world.db.outbox, o.published_at ≠ none → s.world.bus.Accepted o.id.String) := by
  have h : ((parties .empty sampleParties).run World.machine sampleMoves).map (fun s =>
      (s.world.bus.accepted.length, s.world.bus.stream.length)) = some (2, 1) := by
    decide +kernel
  obtain ⟨s, hrun, hs⟩ := Option.map_eq_some_iff.1 h
  obtain ⟨ha, hst⟩ := Prod.mk.inj hs
  have hps : ∀ p r fuel ticks, sampleParties p = some (.relayer r fuel ticks) →
      r.subjectPrefix = "forge.events" := by
    intro p r fuel ticks hp
    unfold sampleParties at hp
    split_ifs at hp <;> cases hp
    rfl
  have hdb : ∀ o ∈ Tables.empty.outbox, o.published_at = none := by simp [Tables.empty]
  exact ⟨s, hrun, ha, hst, (relay_delivery hdb hps hrun).1⟩

end relay

end Forge
