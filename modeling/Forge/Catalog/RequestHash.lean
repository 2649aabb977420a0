import Forge.Catalog.Handlers
import Forge.Lib.Json
import Forge.Lib.Protocol
import Forge.Lib.Sha256

/-!
# Idempotency records and the bodies they were saved for

`POST /services` requests handled one after another. `Save` stores the SHA-256 of the body with the
answer, but `Lookup` does not even select it, so a key used again with another body is answered with
the outcome of the first (`key_reused`). Where a key is used with one body only, every request
answered from a record has the hash of that record (`replays_have_own_hash`).
-/

namespace Forge.Catalog

open GoString

/-! ### Bodies -/

/-- A member of the object that names a string field. -/
def stringField (old : GoString) : Json → Option GoString
  | .string s => some s
  | .null => some old
  | _ => none

def intField (old : Int) : Json → Option Int
  | .number text => ParseInt text
  | .null => some old
  | _ => none

/-- One member of the body sets the field it names; `none`: it has the wrong type. -/
def RegisterServiceRequest.setField (req : RegisterServiceRequest) (m : GoString × Json) :
    Option RegisterServiceRequest :=
  let named (field : GoString) : Bool := Json.foldName field = Json.foldName m.1
  if named "tenantId" then (stringField req.TenantID m.2).map ({ req with TenantID := · })
  else if named "name" then (stringField req.Name m.2).map ({ req with Name := · })
  else if named "description" then (stringField req.Description m.2).map ({ req with Description := · })
  else if named "tier" then (intField req.Tier m.2).map ({ req with Tier := · })
  else if named "repository" then (stringField req.Repository m.2).map ({ req with Repository := · })
  else if named "owningTeam" then (stringField req.OwningTeam m.2).map ({ req with OwningTeam := · })
  else if named "onCallRef" then (stringField req.OnCallRef m.2).map ({ req with OnCallRef := · })
  else some req

/-- `json.Unmarshal` into a `RegisterServiceRequest`. -/
def unmarshalRequest (body : GoString) : Option RegisterServiceRequest :=
  let zero : RegisterServiceRequest := ⟨[], [], [], 0, [], [], []⟩
  (Json.parse body).bind fun
    | .null => some zero
    | .object ms => ms.foldlM RegisterServiceRequest.setField zero
    | _ => none

/-- The limit of `http.MaxBytesReader`. -/
def maxBody : Nat := 1 <<< 20

def readBody (body : GoString) : Except Handlers.BodyError RegisterServiceRequest :=
  if maxBody < body.length then .error .unread
  else match unmarshalRequest body with
    | some req => .ok req
    | none => .error .invalid

/-! ### Requests one after another -/

structure Post where
  /-- The header `Idempotency-Key`, `[]` if absent. -/
  key : GoString
  body : GoString
deriving DecidableEq

/-- What `Save` stores as `request_hash`. -/
def Post.hash (r : Post) : GoString := hex.EncodeToString (sha256.Sum256 r.body)

def Post.handle [UuidLib] (r : Post) : Proc Call Call.Ans Response :=
  Handlers.Register true r.key r.hash (readBody r.body)

/-- A request, the tables when it arrived, and its answer. -/
structure Exchange where
  post : Post
  before : Tables
  response : Response

/-- The requests handled one after another, each with what the world decides about its calls. -/
def postAll [UuidLib] : List (Post × List Choice) → World → Option (List Exchange × World)
  | [], w => some ([], w)
  | (r, cs) :: rest, w => match r.handle.exec (World.call 0) cs w with
    | some (resp, w') => (postAll rest w').map fun x => (⟨r, w.db, resp⟩ :: x.1, x.2)
    | none => none

/-! ### What records a handler saves -/

/-- The calls that save no record. -/
def savesNothing : Call → Bool
  | .exec _ (.insertIdem _) => false
  | _ => true

/-- Every record, saved or about to be, satisfies `P`. -/
structure Records (P : IdemRow → Prop) (w : World) : Prop where
  saved : ∀ r ∈ w.db.idem, P r
  pending : ∀ p tx, w.txs p = some tx → ∀ r, Write.insertIdem r ∈ tx.writes → P r

section
variable {P : IdemRow → Prop} {p : Pid} {w w' : World}

/-- Only `INSERT INTO idempotency_keys` adds a record. -/
theorem insertIdem_of_plan {q : Stmt} {now : Timestamptz} {t : Tables} {a : q.Ans} {ws : List Write}
    {r : IdemRow} (h : q.plan now t = .ok (a, ws)) (hr : Write.insertIdem r ∈ ws) : q = .insertIdem r := by
  replace h := (Stmt.plan_ok h).2
  cases q with
  | insertIdem r' =>
    simp only [Stmt.eval] at h
    split at h
    · cases h; cases hr
    · split at h <;> cases h
      cases List.mem_singleton.1 hr
      rfl
  | selectService id => cases h; cases hr
  | selectServiceByName T N => cases h; cases hr
  | selectIdem key => cases h; cases hr
  | insertService r' =>
    simp only [Stmt.eval] at h
    split at h
    · cases h
    · split at h <;> cases h
      cases List.mem_singleton.1 hr
  | updateService id v c =>
    simp only [Stmt.eval] at h
    split at h
    · split at h
      · split at h <;> cases h
        cases List.mem_singleton.1 hr
      · cases h; cases hr
    · cases h; cases hr
  | insertHistory r' =>
    simp only [Stmt.eval, Stmt.planHistory] at h
    split at h
    · cases h
    · split at h <;> cases h
      cases List.mem_singleton.1 hr
  | closeOwnership id t' team onCall =>
    cases h
    cases List.mem_singleton.1 hr
  | openOwnership r' =>
    simp only [Stmt.eval, Stmt.planHistory] at h
    split at h
    · cases h; cases hr
    · split at h
      · cases h
      · split at h <;> cases h
        cases List.mem_singleton.1 hr
  | insertOutbox id agg ty payload at_ =>
    simp only [Stmt.eval] at h
    split at h
    · split at h <;> cases h
      cases List.mem_singleton.1 hr
    · cases h
  | markPublished ids =>
    cases h
    cases List.mem_singleton.1 hr

theorem mem_idem_foldl {ws : List Write} {t : Tables} {r : IdemRow} (h : r ∈ (ws.foldl Write.apply t).idem) :
    r ∈ t.idem ∨ Write.insertIdem r ∈ ws := by
  induction ws generalizing t with
  | nil => exact .inl h
  | cons w ws ih =>
    rcases ih h with h | h
    · cases w with
      | insertIdem r' =>
        rcases List.mem_append.1 h with h | h
        · exact .inl h
        · cases List.mem_singleton.1 h
          exact .inr List.mem_cons_self
      | _ => exact .inl h
    · exact .inr (List.mem_cons_of_mem _ h)

theorem Records.put {tx : Tx} {ks : List Key} (h : Records P w)
    (htx : ∀ r, Write.insertIdem r ∈ tx.writes → P r) : Records P (w.put p tx ks) :=
  ⟨h.saved, World.txs_put htx fun q tx' _ hq => h.pending q tx' hq⟩

theorem Records.endTx (h : Records P w) (p : Pid) : Records P (w.endTx p) :=
  ⟨h.saved, fun q tx hq => h.pending q tx (World.txs_endTx hq).2⟩

theorem Records.commit {tx : Tx} (h : Records P w) (htx : ∀ r, Write.insertIdem r ∈ tx.writes → P r) :
    Records P (w.commit p tx) :=
  ⟨fun r hr => (mem_idem_foldl hr).elim (h.saved r) (htx r), h.pending⟩

theorem Records.call {op : Call} {c : Choice} {a : op.Ans} (h : Records P w)
    (hop : ∀ db r, op = .exec db (.insertIdem r) → P r) (hc : World.call p op c w = some (a, w')) :
    Records P w' := by
  have hws : ∀ {db q now t b ws}, op = .exec db q → q.plan now t = .ok (b, ws) →
      ∀ r, Write.insertIdem r ∈ ws → P r := by
    intro db q now t b ws hq hplan r hr
    exact hop db r (hq.trans (congrArg (Call.exec db) (insertIdem_of_plan hplan hr)))
  cases World.call_did hc with
  | begin => exact h.put (by simp [Tx.start])
  | commit htx => exact (h.commit (h.pending p _ htx)).endTx p
  | abort => exact Records.endTx (w := w.fault) ⟨h.saved, h.pending⟩ p
  | rollback => exact h.endTx p
  | exec htx hplan _ =>
    refine h.put fun r hr => ?_
    exact (List.mem_append.1 hr).elim (h.pending p _ htx r) (hws rfl hplan r)
  | auto _ hplan _ => exact h.commit (hws rfl hplan)
  | @row tx _ _ _ htx => exact Records.put (w := w.setCursor p _) ⟨h.saved, h.pending⟩ (h.pending p tx htx)
  | reject | autoReject | noRow => exact h
  | _ => exact ⟨h.saved, h.pending⟩

end

/-! ### The calls of `Register` -/

section
variable [UuidLib] {P : Call → Prop}

theorem uses_RegisterService (hP : ∀ op, savesNothing op = true → P op) (inp : RegisterServiceInput) :
    (RegisterService inp).run.Uses P := by
  rw [RegisterService_eq]
  refine M.uses_bind ?_ fun x => ?_
  · exact trivial
  refine M.uses_bind (M.uses_perform (hP _ rfl)) fun id => M.uses_bind (M.uses_perform (hP _ rfl)) fun now => ?_
  refine uses_Execute ?_ (hP _ rfl) (hP _ rfl) (hP _ rfl)
  refine M.uses_bind (M.uses_lift (M.uses_bind (M.uses_exec (hP _ rfl)) fun _ => trivial)) fun r => ?_
  cases r with
  | ok svc => exact trivial
  | error e =>
    dsimp only
    split
    · exact trivial
    · refine M.uses_bind ?_ fun _ => ?_
      · exact M.uses_bind (M.uses_exec (hP _ rfl)) fun _ => M.uses_bind (M.uses_perform (hP _ rfl)) fun _ =>
          M.uses_exec (hP _ rfl)
      · refine M.uses_bind ?_ fun _ => trivial
        exact M.uses_bind (M.uses_perform (hP _ rfl)) fun _ => M.uses_bind (M.uses_exec (hP _ rfl)) fun _ => trivial

/-- `Register` saves no record but one of its own key and hash. -/
theorem uses_Register {key hash : GoString} {body : Except Handlers.BodyError RegisterServiceRequest}
    (hP : ∀ op, savesNothing op = true → P op)
    (hsave : key ≠ [] → ∀ u resp, P (.exec .pool (.insertIdem ⟨u, key, hash, 201, resp⟩))) (idem : Bool) :
    (Handlers.Register idem key hash body).Uses P := by
  have hfresh : ∀ save req, (save = true → key ≠ []) → (Handlers.registerFresh save key hash req).Uses P := by
    intro save req hkey
    refine (uses_RegisterService hP _).bind fun r => ?_
    cases r with
    | error e => exact trivial
    | ok svc =>
      cases save with
      | false => exact trivial
      | true =>
        refine Proc.Uses.bind ?_ fun _ => trivial
        exact M.uses_bind (M.uses_perform (hP _ rfl)) fun u => M.uses_exec (hsave (hkey rfl) u _)
  cases body with
  | error e => exact trivial
  | ok req =>
    unfold Handlers.Register
    dsimp only
    split
    · rename_i hkey
      refine Proc.Uses.bind (M.uses_exec (hP _ rfl)) fun r => ?_
      rcases r with e | _ | rec
      · exact trivial
      · exact hfresh true req fun _ => hkey.1
      · exact trivial
    · exact hfresh false req nofun

/-- The answer to a registration is not marked as a replay. -/
theorem not_replayed_registerFresh {save : Bool} {key hash : GoString} {req : RegisterServiceRequest}
    {cs : List Choice} {w w' : World} {resp : Response}
    (h : (Handlers.registerFresh save key hash req).exec (World.call 0) cs w = some (resp, w')) :
    resp.Replayed = false := by
  have hob : (Handlers.registerFresh save key hash req).Obeys (fun (_ : Unit) _ => True) (fun _ _ _ => ())
      (fun r _ => r.Replayed = false) () := by
    refine Proc.Obeys.bind (Proc.Obeys.any _ _) fun r _ _ => ?_
    cases r with
    | error e => rfl
    | ok svc =>
      cases save with
      | false => rfl
      | true => exact Proc.Obeys.bind (Proc.Obeys.any _ _) fun _ _ _ => rfl
  exact (hob.exec h).elim fun _ h => h

/-- A replay is the answer of the record found under the key. -/
theorem replayed_of_handle {r : Post} {cs : List Choice} {w w' : World} {resp : Response}
    (h : r.handle.exec (World.call 0) cs w = some (resp, w')) (hresp : resp.Replayed = true) :
    r.key ≠ [] ∧ ∃ rec, w.db.idemRow r.key = some rec ∧ resp.Status = rec.response_status ∧
      resp.Body = .ok rec.response_body := by
  unfold Post.handle Handlers.Register at h
  cases hbody : readBody r.body with
  | error e =>
    rw [hbody] at h
    obtain ⟨rfl, -⟩ := Proc.exec_ret h
    cases hresp
  | ok req =>
    simp only [hbody] at h
    split at h
    · rename_i hkey
      rw [idempotency.Lookup, M.run_exec_bind] at h
      obtain ⟨c, cs', b, w₁, -, hc, hk⟩ := Proc.exec_call h
      cases World.call_did hc with
      | execFault =>
        obtain ⟨rfl, -⟩ := Proc.exec_ret hk
        cases hresp
      | auto _ hplan _ =>
        cases (Stmt.plan_ok hplan).2
        cases hrow : w.db.idemRow r.key with
        | none =>
          rw [hrow] at hk
          cases hresp.symm.trans (not_replayed_registerFresh hk)
        | some rec =>
          rw [hrow] at hk
          obtain ⟨rfl, -⟩ := Proc.exec_ret hk
          exact ⟨hkey.1, rec, rfl, rfl, rfl⟩
      | autoReject =>
        obtain ⟨rfl, -⟩ := Proc.exec_ret hk
        cases hresp
    · cases hresp.symm.trans (not_replayed_registerFresh h)

/-! ### Keys used with one body -/

/-- The record was saved for one of the requests. -/
def SavedFor (posts : List Post) (rec : IdemRow) : Prop :=
  ∃ r ∈ posts, r.key = rec.idem_key ∧ r.key ≠ [] ∧ r.hash = rec.request_hash

theorem Records.handle {posts : List Post} {r : Post} {cs : List Choice} {w w' : World} {resp : Response}
    (hr : r ∈ posts) (h : Records (SavedFor posts) w)
    (he : r.handle.exec (World.call 0) cs w = some (resp, w')) : Records (SavedFor posts) w' := by
  have huses : r.handle.Uses fun op => ∀ db rec, op = .exec db (.insertIdem rec) → SavedFor posts rec := by
    refine uses_Register (fun op hop db rec he => ?_) (fun hkey u resp db rec he => ?_) true
    · subst he
      cases hop
    · cases he
      exact ⟨r, hr, rfl, hkey, rfl⟩
  have hrg := huses.rg (E := World.call 0) (I := Records (SavedFor posts)) (R := fun w w' => w = w')
    (G := fun _ _ => True) (fun op w hop hI => ⟨trivial, fun c a w' hc => hI.call hop hc⟩) w
  exact (hrg.exec (fun _ => rfl) h he).1

/-- If a key is used with one body only, a request answered from a record has the hash of the record. -/
theorem replays_have_own_hash {posts : List (Post × List Choice)} {db : Tables} {xs : List Exchange} {w : World}
    (hkeys : ∀ a ∈ posts, ∀ b ∈ posts, a.1.key ≠ [] → a.1.key = b.1.key → a.1.body = b.1.body)
    (hdb : db.idem = []) (h : postAll posts (.init db) = some (xs, w)) :
    ∀ x ∈ xs, x.response.Replayed = true → ∃ rec, x.before.idemRow x.post.key = some rec ∧
      x.response.Body = .ok rec.response_body ∧ rec.request_hash = x.post.hash := by
  -- the requests still to come are among `posts`, and every record was saved for one of those
  have hrun : ∀ rest w₀, (∀ a ∈ rest, a ∈ posts) → Records (SavedFor (posts.map (·.1))) w₀ →
      ∀ xs, postAll rest w₀ = some (xs, w) → ∀ x ∈ xs, x.response.Replayed = true →
        ∃ rec, x.before.idemRow x.post.key = some rec ∧ x.response.Body = .ok rec.response_body ∧
          rec.request_hash = x.post.hash := by
    intro rest
    induction rest with
    | nil =>
      intro w₀ _ _ xs hx x hmem
      cases hx
      cases hmem
    | cons a rest ih =>
      obtain ⟨r, cs⟩ := a
      intro w₀ hsub hrec xs hx x hmem hresp
      simp only [postAll] at hx
      split at hx
      · rename_i resp w₁ hexec
        obtain ⟨⟨ys, w'⟩, hys, hxs⟩ := Option.map_eq_some_iff.1 hx
        cases hxs
        have hr : (r, cs) ∈ posts := hsub _ List.mem_cons_self
        rcases List.mem_cons.1 hmem with rfl | hmem
        · obtain ⟨hkey, rec, hrow, -, hbody⟩ := replayed_of_handle hexec hresp
          obtain ⟨r', hr', hk, hne, hhash⟩ := hrec.saved rec (List.mem_of_find?_eq_some hrow)
          obtain ⟨b, hb, rfl⟩ := List.mem_map.1 hr'
          have hkey' : rec.idem_key = r.key := by simpa using List.find?_some hrow
          have hsame : b.1.body = r.body := hkeys b hb (r, cs) hr hne (hk.trans hkey')
          refine ⟨rec, hrow, hbody, ?_⟩
          rw [← hhash, Post.hash, hsame]
          rfl
        · exact ih w₁ (fun a ha => hsub a (List.mem_cons_of_mem _ ha))
            (hrec.handle (List.mem_map_of_mem hr) hexec) ys hys x hmem hresp
      · cases hx
  refine hrun posts _ (fun a ha => ha) ⟨?_, ?_⟩ xs h
  · rw [show (World.init db).db.idem = [] from hdb]
    exact fun r hr => nomatch hr
  · exact fun p tx hp => nomatch hp

end

/-- The body of a request that registers `name` for the tenant 2. -/
def sampleBody (name : GoString) : GoString :=
  str "\x7b\"tenantId\":\"" ++ UUID.String ⟨2⟩ ++ str "\",\"name\":\"" ++ name ++
    str "\",\"tier\":1,\"owningTeam\":\"core\"\x7d"

/-- A registration that succeeds, and the retry of it. -/
def retriedPosts (second : GoString) : List (Post × List Choice) :=
  [(⟨"k", sampleBody "api"⟩, [.time 0, .uuid ⟨1⟩, .time 0, .time 0, .ok, .ok, .uuid ⟨10⟩, .ok, .uuid ⟨11⟩, .ok, .ok,
      .uuid ⟨12⟩, .time 0]), (⟨"k", sampleBody second⟩, [.time 0])]

attribute [local instance] UuidLib.canonical

theorem replays_have_own_hash_sample : ∃ xs w, postAll (retriedPosts "api") (.init .empty) = some (xs, w) ∧
    ∃ x ∈ xs, x.response.Replayed = true ∧ ∃ rec, x.before.idemRow x.post.key = some rec ∧
      rec.request_hash = x.post.hash := by
  have h : (postAll (retriedPosts "api") (.init .empty)).map (fun x => x.1.map (·.response.Replayed)) =
      some [false, true] := by decide +kernel
  obtain ⟨⟨xs, w⟩, hx, hr⟩ := Option.map_eq_some_iff.1 h
  obtain ⟨x, hmem, hrep⟩ := List.mem_map.1 (show true ∈ xs.map (·.response.Replayed) by rw [hr]; simp)
  obtain ⟨rec, hrec, -, hhash⟩ := replays_have_own_hash (by
    intro a ha b hb _ _
    simp only [retriedPosts, List.mem_cons, List.not_mem_nil, or_false] at ha hb
    rcases ha with rfl | rfl <;> rcases hb with rfl | rfl <;> rfl) rfl hx x hmem hrep
  exact ⟨xs, w, hx, x, hmem, hrep, rec, hrec, hhash⟩

/-- The key of a registration of `api` is used again for `web`: the answer is the one about `api`. -/
theorem key_reused : ∃ xs w, postAll (retriedPosts "web") (.init .empty) = some (xs, w) ∧
    ∃ x ∈ xs, x.post.body = sampleBody "web" ∧ x.response.Replayed = true ∧
      ∃ rec, x.before.idemRow x.post.key = some rec ∧ x.response.Body = .ok rec.response_body ∧
        rec.response_body.Name = str "api" ∧ rec.request_hash ≠ x.post.hash := by
  have h : (postAll (retriedPosts "web") (.init .empty)).map (fun x => x.1.map fun x =>
      (x.post.body = sampleBody "web" ∧ x.response.Replayed = true ∧
        (x.before.idemRow x.post.key).any fun rec => x.response.Body = .ok rec.response_body ∧
          rec.response_body.Name = str "api" ∧ rec.request_hash ≠ x.post.hash : Bool)) =
      some [false, true] := by decide +kernel
  obtain ⟨⟨xs, w⟩, hx, hr⟩ := Option.map_eq_some_iff.1 h
  obtain ⟨x, hmem, hobs⟩ := List.mem_map.1 (show true ∈ xs.map _ by rw [hr]; simp)
  obtain ⟨hbody, hrep, hany⟩ := of_decide_eq_true hobs
  cases hrow : x.before.idemRow x.post.key with
  | none =>
    rw [hrow] at hany
    cases hany
  | some rec =>
    rw [hrow] at hany
    obtain ⟨hb, hname, hhash⟩ := of_decide_eq_true hany
    exact ⟨xs, w, hx, x, hmem, hbody, hrep, rec, hrow, hb, hname, hhash⟩

end Forge.Catalog
