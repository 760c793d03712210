import Courier.Library.Run
import Courier.RpcTransport

/-!
# Calls take effect once

The network cannot sign, and nothing that is signed names the key of a call.  Where the requests that the server
accepts come with the keys of the calls they carry, every call takes effect at most once and every reply
answers its own request (`once_of_keyKept`).  A request that comes with another key is accepted all the same.
-/

namespace Courier.Rpc

open Calendar Json Receipts Text
open Run (Along along_cons along_nil along_of)

/-! ### Contents -/

theorem good_content {eventType itemId payload : Json} (he : Good eventType) (hi : Good itemId)
    (hp : Good payload) :
  Good (.obj (canonicalContent eventType itemId payload))
  := by
  apply good_obj
  · rfl
  · intro q hq
    simp only [canonicalContent, List.mem_cons, List.not_mem_nil, or_false] at hq
    rcases hq with rfl | rfl | rfl
    · exact ⟨(by decide : PlainText (text "event_type")), he⟩
    · exact ⟨(by decide : PlainText (text "item_id")), hi⟩
    · exact ⟨(by decide : PlainText (text "payload")), hp⟩

theorem good_body [Surroundings] {client : RPCClient} {call : Call} {key : Json}
    (hcall : Good (.obj call.content)) (hkey : Good key)
    (hsignature : PlainText (client.signer.signatureOf (.obj call.content) (format call.now))) :
  Good (.obj (insertMember (text "idempotency_key") key (client.body call)))
  := by
  have hwf := hcall.1
  simp only [Call.content, canonicalContent, Json.wf, Json.wf.wfMembers, Bool.and_eq_true] at hwf
  have hpayload : (Json.obj call.payload).wf = true := by
    rw [Json.wf, Bool.and_eq_true]
    exact hwf.2.2.2.1
  obtain ⟨-, hevent, -, hitem, -, htexts, -⟩ := hcall.2
  have hstamp := plainText_format call.now
  have hbody : insertMember (text "idempotency_key") key (client.body call) =
      [(text "event_type", .str call.eventType), (text "idempotency_key", key),
        (text "item_id", .str call.itemId), (text "payload", .obj call.payload),
        (text "signature", .str (client.signer.signatureOf (.obj call.content) (format call.now))),
        (text "signed_at", .str (format call.now))] := rfl
  rw [hbody]
  apply good_obj
  · rfl
  · intro q hq
    simp only [List.mem_cons, List.not_mem_nil, or_false] at hq
    rcases hq with rfl | rfl | rfl | rfl | rfl | rfl
    · exact ⟨(by decide : PlainText (text "event_type")), rfl, hevent⟩
    · exact ⟨(by decide : PlainText (text "idempotency_key")), hkey⟩
    · exact ⟨(by decide : PlainText (text "item_id")), rfl, hitem⟩
    · exact ⟨(by decide : PlainText (text "payload")), hpayload, htexts⟩
    · exact ⟨(by decide : PlainText (text "signature")), rfl, hsignature⟩
    · exact ⟨(by decide : PlainText (text "signed_at")), rfl, hstamp⟩

theorem good_lookup {d : Members} {k : Str} {v : Json} (hd : Good (.obj d)) (hv : Good v) :
  Good ((d.lookup k).getD v)
  := by
  cases hk : d.lookup k with
  | none => exact hv
  | some found =>
    have hwf := hd.1
    rw [Json.wf, Bool.and_eq_true] at hwf
    exact ⟨wf_of_lookup hwf.2 hk, everyText_of_lookup hd.2 hk⟩

theorem good_requestOf {body : Members} (h : Good (.obj body)) :
  Good (.obj (requestOf body).content)
  := by
  have hnone : Good (.str []) := ⟨rfl, (by decide : PlainText [])⟩
  exact good_content (good_lookup h hnone) (good_lookup h hnone) (good_lookup h ⟨rfl, trivial⟩)

/-! ### What is promised -/

/-- Every call takes effect at most once, and with its own content: what the handler answered are different
calls. -/
def OnceEach (w : World) : Prop :=
  ∃ calls : List Call, calls.Nodup ∧ calls ⊆ w.sent ∧
    List.Forall₂ (fun done call => done.request.content = call.content) w.memory.served calls

def Answers (w : World) (reply : Members × RPCResponse) : Prop :=
  reply.2.statusCode = 200 →
    ∃ done ∈ w.memory.served, done.request.content = (requestOf reply.1).content ∧
      done.answer = reply.2.data

def Answered (w : World) : Prop :=
  ∀ reply ∈ w.replies, Answers w reply

def Signs (call : Call) (req : RPCRequest) : Prop :=
  ∃ signedAt, req.signedAt = .str signedAt ∧ call.signedText = message (.obj req.content) signedAt

structure Bound (w : World) : Prop where
  own : ∀ call ∈ w.sent, ∀ other ∈ w.sent, call.key = other.key → call = other
  named : ∀ call ∈ w.sent, ∃ k, call.key = .str k ∧ k ≠ []
  good : ∀ call ∈ w.sent, Good (.obj call.content)
  cached : ∀ entry ∈ w.memory.idempotencyCache, ∃ done ∈ w.memory.served,
    entry = (done.request.idempotencyKey, { statusCode := 200, data := done.answer })
  kept : ∀ done ∈ w.memory.served, ∃ entry ∈ w.memory.idempotencyCache,
    entry.1 = done.request.idempotencyKey
  served : ∀ done ∈ w.memory.served, ∃ call ∈ w.sent,
    done.request.idempotencyKey = call.key ∧ done.request.content = call.content
  once : (w.memory.served.map fun done => done.request.idempotencyKey).Nodup
  answered : Answered w

theorem bound_nil :
  Bound {}
  where
  own := by simp
  named := by simp
  good := by simp
  cached := by simp
  kept := by simp
  served := by simp
  once := List.nodup_nil
  answered := by simp [Answered]

theorem Bound.onceEach {w : World} (h : Bound w) :
  OnceEach w
  := by
  have hcalls : ∀ done ∈ w.memory.served, ∃ call, call ∈ w.sent ∧
      done.request.idempotencyKey = call.key ∧ done.request.content = call.content := h.served
  have hpaired : ∀ served : List Served,
      (∀ done ∈ served, ∃ call, call ∈ w.sent ∧
        done.request.idempotencyKey = call.key ∧ done.request.content = call.content) →
      ∃ calls : List Call, calls ⊆ w.sent ∧
        (served.map fun done => done.request.idempotencyKey) = calls.map Call.key ∧
        List.Forall₂ (fun done call => done.request.content = call.content) served calls := by
    intro served
    induction served with
    | nil => exact fun _ => ⟨[], by simp, rfl, .nil⟩
    | cons done served ih =>
      intro hserved
      obtain ⟨calls, hsub, hkeys, hcontents⟩ := ih fun d hd => hserved d (List.mem_cons_of_mem _ hd)
      obtain ⟨call, hmem, hkey, hcontent⟩ := hserved done List.mem_cons_self
      exact ⟨call :: calls, List.cons_subset.mpr ⟨hmem, hsub⟩, by simp [hkey, hkeys],
        .cons hcontent hcontents⟩
  obtain ⟨calls, hsub, hkeys, hcontents⟩ := hpaired w.memory.served hcalls
  have hnodup : (calls.map Call.key).Nodup := hkeys ▸ h.once
  exact ⟨calls, hnodup.of_map, hsub, hcontents⟩

theorem Bound.reply {w : World} {body : Members} {resp : RPCResponse} (h : Bound w) (hreply : Answers w (body, resp)) :
  Bound { w with replies := (body, resp) :: w.replies }
  where
  own := h.own
  named := h.named
  good := h.good
  cached := h.cached
  kept := h.kept
  served := h.served
  once := h.once
  answered := by
    intro reply hmem
    rcases List.mem_cons.mp hmem with rfl | hmem
    · exact hreply
    · exact h.answered reply hmem

/-! ### Keys -/

section

variable [OtherKeys] {server : RPCServer} {body : Members} {w : World} {call : Call} {req : RPCRequest}

theorem sameKey_str {s : Str} {key : Json} :
  sameKey (.str s) key = true ↔ key = .str s
  := by
  cases key <;> simp [sameKey, eq_comm]

theorem cached_str {m : Memory} {s : Str} (hs : s ≠ []) :
  m.cached (.str s) =
    .ok ((m.idempotencyCache.find? fun entry => sameKey (.str s) entry.1).map Prod.snd)
  := by
  simp [Memory.cached, truthy, hs]

theorem Bound.answers_cached {resp : RPCResponse} (h : Bound w) (hcall : call ∈ w.sent)
    (hkey : (requestOf body).idempotencyKey = call.key) (hcontent : (requestOf body).content = call.content)
    (hfound : w.memory.cached (requestOf body).idempotencyKey = .ok (some resp)) :
  Answers w (body, { resp with isCached := true })
  := by
  intro _
  obtain ⟨k, hk, hne⟩ := h.named call hcall
  rw [hkey, hk, cached_str hne, Except.ok.injEq, Option.map_eq_some_iff] at hfound
  obtain ⟨entry, hentry, rfl⟩ := hfound
  have hsame := List.find?_some hentry
  rw [sameKey_str] at hsame
  obtain ⟨done, hdone, hcached⟩ := h.cached entry (List.mem_of_find?_eq_some hentry)
  obtain ⟨caller, hcaller, hdoneKey, hdoneContent⟩ := h.served done hdone
  -- The cached answer was given to the call with this key.
  have hcallers : caller = call := by
    apply h.own caller hcaller call hcall
    rw [← hdoneKey, hk, ← hsame, hcached]
  refine ⟨done, hdone, ?_, ?_⟩
  · rw [hdoneContent, hcallers, hcontent]
  · rw [hcached]

theorem Bound.dispatch (h : Bound w) (server : RPCServer) (hcall : call ∈ w.sent) (hkey : req.idempotencyKey = call.key)
    (hcontent : req.content = call.content) (hnone : w.memory.cached req.idempotencyKey = .ok none) :
  Bound { w with memory := (server.dispatch req w.memory).2 } ∧
    ((server.dispatch req w.memory).1.statusCode = 200 →
      ∃ done ∈ (server.dispatch req w.memory).2.served, done.request.content = req.content ∧
        done.answer = (server.dispatch req w.memory).1.data)
  := by
  obtain ⟨k, hk, hne⟩ := h.named call hcall
  have hreq : req.idempotencyKey = .str k := hkey.trans hk
  have htruthy : truthy req.idempotencyKey = true := by simp [hreq, truthy, hne]
  -- No answer was given to a request with this key.
  have hfresh : ∀ done ∈ w.memory.served, done.request.idempotencyKey ≠ req.idempotencyKey := by
    intro done hdone heq
    obtain ⟨entry, hentry, hentryKey⟩ := h.kept done hdone
    rw [hreq, cached_str hne, Except.ok.injEq, Option.map_eq_none_iff, List.find?_eq_none] at hnone
    apply hnone entry hentry
    rw [sameKey_str, hentryKey, heq, hreq]
  unfold RPCServer.dispatch
  cases server.handle w.memory.calls req with
  | error exc =>
    refine ⟨⟨h.own, h.named, h.good, h.cached, h.kept, h.served, h.once, h.answered⟩, ?_⟩
    intro hstatus
    exact absurd hstatus (by decide : 500 ≠ 200)
  | ok resData =>
    simp only [htruthy, if_true]
    have holder : ∀ {p : Served → Prop}, (∃ d ∈ w.memory.served, p d) →
        ∃ d ∈ (⟨req, resData⟩ :: w.memory.served : List Served), p d :=
      fun ⟨d, hd, hp⟩ => ⟨d, List.mem_cons_of_mem _ hd, hp⟩
    refine ⟨?_, fun _ => ⟨⟨req, resData⟩, List.mem_cons_self, rfl, rfl⟩⟩
    exact
      { own := h.own
        named := h.named
        good := h.good
        cached := by
          intro entry hentry
          rcases List.mem_cons.mp hentry with rfl | hentry
          · exact ⟨⟨req, resData⟩, List.mem_cons_self, rfl⟩
          · exact holder (h.cached entry hentry)
        kept := by
          intro done hdone
          rcases List.mem_cons.mp hdone with rfl | hdone
          · exact ⟨_, List.mem_cons_self, rfl⟩
          · obtain ⟨entry, hentry, hentryKey⟩ := h.kept done hdone
            exact ⟨entry, List.mem_cons_of_mem _ hentry, hentryKey⟩
        served := by
          intro done hdone
          rcases List.mem_cons.mp hdone with rfl | hdone
          · exact ⟨call, hcall, hkey, hcontent⟩
          · exact h.served done hdone
        once := by
          refine List.nodup_cons.mpr ⟨?_, h.once⟩
          rintro hmem
          obtain ⟨done, hdone, heq⟩ := List.mem_map.mp hmem
          exact hfresh done hdone heq
        answered := fun reply hreply hstatus => holder (h.answered reply hreply hstatus) }

end

section

variable [Surroundings] {server : RPCServer} {headers : List (Str × Str)} {body : Members}
  {now : DateTime} {m : Memory} {w : World} {call : Call} {req : RPCRequest}

/-! ### What the server accepts -/

def Authentic (server : RPCServer) (headers : List (Str × Str)) (body : Members) (now : DateTime) : Prop :=
  authHeader headers = server.expectedAuth ∧
    server.signer.verifyDict (requestOf body).receipt now = .ok ⟨true, .valid⟩

theorem signature_of_authentic (h : Authentic server headers body now) :
  ∃ signedAt t, (requestOf body).signedAt = .str signedAt ∧ Surroundings.strptime signedAt = some t ∧
    (requestOf body).signature = .str (server.signer.signatureOf (.obj (requestOf body).content) signedAt)
  := by
  obtain ⟨-, hverify⟩ := h
  unfold ReceiptSigner.verifyDict at hverify
  split at hverify
  · next receipt hreceipt =>
    obtain ⟨signedAt, t, hat, ht, -, -, hsignature⟩ := verify_valid_iff.mp hverify
    unfold SignedReceipt.fromDict at hreceipt
    split at hreceipt
    · next c s hs =>
      cases hreceipt
      refine ⟨signedAt, t, hat, ht, ?_⟩
      have hsame : (requestOf body).signature = .str (c :: s) := hs
      exact hsame.trans (congrArg Json.str hsignature)
    · cases hreceipt
  · cases hverify

/-- A call has its own key, what arrives is what a JSON reader gives, and a signature is one that the signer gave. -/
def Assumed (server : RPCServer) (w : World) : Action → Prop
  | .send call =>
      (∃ k, call.idempotencyKey = some k) ∧ (∀ other ∈ w.sent, other.idempotencyKey ≠ call.idempotencyKey) ∧
        (Json.obj call.content).wf = true
  | .deliver _ body _ =>
      Good (.obj body) ∧
        ∀ signedAt, (requestOf body).signedAt = .str signedAt →
          (requestOf body).signature =
            .str (server.signer.signatureOf (.obj (requestOf body).content) signedAt) →
          ∃ call ∈ w.sent, Signs call (requestOf body)

def KeyKept (server : RPCServer) (w : World) : Action → Prop
  | .send call => call.idempotencyKey ≠ some [] ∧ (Json.obj call.content).EveryText PlainText
  | .deliver headers body now =>
      Authentic server headers body now → (∃ call ∈ w.sent, Signs call (requestOf body)) →
        ∃ call ∈ w.sent, Signs call (requestOf body) ∧ (requestOf body).idempotencyKey = call.key

theorem signs_body (client : RPCClient) (call : Call) (key : Json) :
  Signs call (requestOf (insertMember (text "idempotency_key") key (client.body call)))
  := ⟨format call.now, rfl, rfl⟩

theorem assumed_body {client : RPCClient} {key : Json} (hsent : call ∈ w.sent)
    (hcall : Good (.obj call.content)) (hkey : Good key)
    (hsignature : PlainText (client.signer.signatureOf (.obj call.content) (format call.now))) :
  Assumed server w (.deliver headers (insertMember (text "idempotency_key") key (client.body call)) now)
  := ⟨good_body hcall hkey hsignature, fun _ _ _ => ⟨call, hsent, signs_body client call key⟩⟩

theorem keyKept_body {client : RPCClient} (hsent : call ∈ w.sent) :
  KeyKept server w (.deliver headers (client.body call) now)
  := fun _ _ => ⟨call, hsent, signs_body client call call.key, rfl⟩

theorem Bound.call_of_authentic (hformat : FormatOnly) (h : Bound w)
    (ha : Assumed server w (.deliver headers body now)) (hk : KeyKept server w (.deliver headers body now))
    (hauth : Authentic server headers body now) :
  ∃ call ∈ w.sent, (requestOf body).idempotencyKey = call.key ∧ (requestOf body).content = call.content
  := by
  obtain ⟨hbody, hunforged⟩ := ha
  obtain ⟨signedAt, t, hat, ht, hsignature⟩ := signature_of_authentic hauth
  obtain ⟨call, hcall, ⟨signedAt', hat', htext⟩, hkey⟩ :=
    hk hauth (hunforged signedAt hat hsignature)
  obtain rfl : signedAt' = signedAt := by
    rw [hat] at hat'
    exact (Json.str.inj hat').symm
  -- What is signed is the content, after a time without a brace.
  have hsame := message_injective (brace_notMem_format call.now) (hformat _ _ ht) (h.good call hcall)
    (good_requestOf hbody) htext
  exact ⟨call, hcall, hkey, hsame.2.symm⟩

theorem Bound.send (h : Bound w) (ha : Assumed server w (.send call))
    (hk : KeyKept server w (.send call)) :
  Bound { w with sent := call :: w.sent }
  := by
  obtain ⟨⟨k, hkey⟩, hown, hwf⟩ := ha
  obtain ⟨hne, htexts⟩ := hk
  have hcallKey : call.key = .str k := by simp [Call.key, hkey]
  have hother : ∀ other ∈ w.sent, other.key ≠ call.key := by
    intro other hmem heq
    obtain ⟨k', hk', -⟩ := h.named other hmem
    apply hown other hmem
    have hsome : other.idempotencyKey = some k' := by
      cases hother : other.idempotencyKey with
      | none => simp [Call.key, hother] at hk'
      | some l => simpa [Call.key, hother] using hk'
    rw [hsome, hkey]
    rw [hk', hcallKey] at heq
    exact congrArg some (Json.str.inj heq)
  have hlater : ∀ {p : Call → Prop}, (∃ c ∈ w.sent, p c) → ∃ c ∈ call :: w.sent, p c :=
    fun ⟨c, hc, hp⟩ => ⟨c, List.mem_cons_of_mem _ hc, hp⟩
  exact
    { own := by
        intro a ha b hb hab
        rcases List.mem_cons.mp ha with haNew | haOld
        · rcases List.mem_cons.mp hb with hbNew | hbOld
          · exact haNew.trans hbNew.symm
          · exact absurd (haNew ▸ hab.symm) (hother b hbOld)
        · rcases List.mem_cons.mp hb with hbNew | hbOld
          · exact absurd (hbNew ▸ hab) (hother a haOld)
          · exact h.own a haOld b hbOld hab
      named := by
        intro c hc
        rcases List.mem_cons.mp hc with rfl | hc
        · refine ⟨k, hcallKey, ?_⟩
          rintro rfl
          exact hne hkey
        · exact h.named c hc
      good := by
        intro c hc
        rcases List.mem_cons.mp hc with rfl | hc
        · exact ⟨hwf, htexts⟩
        · exact h.good c hc
      cached := h.cached
      kept := h.kept
      served := fun done hdone => hlater (h.served done hdone)
      once := h.once
      answered := h.answered }

/-! ### Steps of the server -/

variable [OtherKeys]

inductive Outcome (server : RPCServer) (headers : List (Str × Str)) (body : Members) (now : DateTime)
    (m : Memory) : Except Exc RPCResponse × Memory → Prop where
  | refused {answer : Except Exc RPCResponse} (h : ∀ resp, answer = .ok resp → resp.statusCode ≠ 200) :
      Outcome server headers body now m (answer, m)
  | cached {resp : RPCResponse} (hauth : Authentic server headers body now)
      (h : m.cached (requestOf body).idempotencyKey = .ok (some resp)) :
      Outcome server headers body now m (.ok { resp with isCached := true }, m)
  | dispatched (hauth : Authentic server headers body now)
      (h : m.cached (requestOf body).idempotencyKey = .ok none) :
      Outcome server headers body now m
        (.ok (server.dispatch (requestOf body) m).1, (server.dispatch (requestOf body) m).2)

theorem handleRequest_outcome (server : RPCServer) (headers : List (Str × Str)) (body : Members)
    (now : DateTime) (m : Memory) :
  Outcome server headers body now m (server.handleRequest headers body now m)
  := by
  unfold RPCServer.handleRequest
  by_cases hheader : authHeader headers ≠ server.expectedAuth
  · rw [if_pos hheader]
    apply Outcome.refused
    rintro _ ⟨⟩
    decide
  · rw [if_neg hheader]
    cases hverify : server.signer.verifyDict (requestOf body).receipt now with
    | error why =>
      apply Outcome.refused
      rintro _ ⟨⟩
    | ok vRes =>
      by_cases hvalid : vRes.isValid = true
      · have hauth : Authentic server headers body now := by
          refine ⟨not_not.mp hheader, ?_⟩
          rw [hverify, (isValid_dict_iff hverify).mp hvalid]
        cases hcached : m.cached (requestOf body).idempotencyKey with
        | error why =>
          simp only [hvalid, Bool.not_true, Bool.false_eq_true, if_false]
          apply Outcome.refused
          rintro _ ⟨⟩
        | ok found =>
          simp only [hvalid, Bool.not_true, Bool.false_eq_true, if_false]
          cases found with
          | some resp => exact .cached hauth hcached
          | none => exact .dispatched hauth hcached
      · simp only [hvalid, Bool.not_false, if_true]
        apply Outcome.refused
        rintro _ ⟨⟩
        exact (by decide : 403 ≠ 200)

theorem Bound.after (hformat : FormatOnly) (h : Bound w) {action : Action} (ha : Assumed server w action)
    (hk : KeyKept server w action) :
  Bound (after server w action)
  := by
  cases action with
  | send call => exact h.send ha hk
  | deliver headers body now =>
    have houtcome := handleRequest_outcome server headers body now w.memory
    simp only [Rpc.after]
    generalize server.handleRequest headers body now w.memory = result at houtcome
    cases houtcome with
    | @refused answer hrefused =>
      cases answer with
      | error why => exact h
      | ok resp => exact h.reply fun hstatus => absurd hstatus (hrefused resp rfl)
    | @cached resp hauth hfound =>
      obtain ⟨call, hcall, hkey, hcontent⟩ := h.call_of_authentic hformat ha hk hauth
      exact h.reply (h.answers_cached hcall hkey hcontent hfound)
    | dispatched hauth hnone =>
      obtain ⟨call, hcall, hkey, hcontent⟩ := h.call_of_authentic hformat ha hk hauth
      obtain ⟨hdispatched, hanswer⟩ := h.dispatch server hcall hkey hcontent hnone
      exact hdispatched.reply hanswer

/-! ### Runs -/

theorem attempts_eq_run (client : RPCClient) (call : Call) (clock : Nat → DateTime) (describe : Exc → Str) :
  ∀ (left : Nat) (lastResp : Option RPCResponse) (w : World), ∃ times : List DateTime,
    (client.attempts server call clock describe left lastResp w.memory).2 =
      ((times.map (Action.deliver client.headers (client.body call))).foldl (after server) w).memory
  | 0, _, w => ⟨[], rfl⟩
  | left + 1, _, w => by
    have hnext : ∀ {answer m'}, server.handleRequest client.headers (client.body call) (clock left)
        w.memory = (answer, m') →
        m' = (after server w (.deliver client.headers (client.body call) (clock left))).memory := by
      intro answer m' h
      cases answer <;> simp [after, h]
    rw [RPCClient.attempts]
    split
    · next resp m' h =>
      split_ifs
      · exact ⟨[clock left], hnext h⟩
      · obtain ⟨times, htimes⟩ := attempts_eq_run client call clock describe left (some resp)
          (after server w (.deliver client.headers (client.body call) (clock left)))
        rw [← hnext h] at htimes
        exact ⟨clock left :: times, htimes⟩
    · next exc m' h =>
      obtain ⟨times, htimes⟩ := attempts_eq_run client call clock describe left
        (some { statusCode := 503, error := text "NETWORK_ERROR: " ++ describe exc })
        (after server w (.deliver client.headers (client.body call) (clock left)))
      rw [← hnext h] at htimes
      exact ⟨clock left :: times, htimes⟩

/-- Along steps whose requests come with the keys of their calls, every call takes effect at most once, and
every reply answers its own request. -/
theorem once_of_keyKept (hformat : FormatOnly) {actions : List Action}
    (hassumed : Along (after server) (Assumed server) {} actions)
    (hkept : Along (after server) (KeyKept server) {} actions) {first : List Action}
    (hfirst : first <+: actions) :
  OnceEach (first.foldl (after server) {}) ∧ Answered (first.foldl (after server) {})
  := by
  have hbound : ∀ first, first <+: actions → Bound (first.foldl (after server) {}) := by
    have hstep : ∀ w action, Bound w → Assumed server w action ∧ KeyKept server w action →
        Bound (after server w action) := fun w action h hp => h.after hformat hp.1 hp.2
    exact along_of hstep bound_nil fun first action hinit =>
      ⟨hassumed first action hinit, hkept first action hinit⟩
  exact ⟨(hbound first hfirst).onceEach, (hbound first hfirst).answered⟩

end

/-! ### Two sent calls -/

local instance surroundingsOnce : Surroundings := Surroundings.plain

local instance otherKeysOnce : OtherKeys := OtherKeys.plain

def sampleServer : RPCServer where
  authToken := text "token"
  secretKey := text "secret"

def sampleClient : RPCClient where
  authToken := text "token"
  secretKey := text "secret"

theorem isDate_noon : IsDate 2026 1 2 := by
  decide

theorem time_noon : 12 < 24 ∧ 0 < 60 ∧ 0 < 60 ∧ 0 < 1000000 := by
  decide

def noon : DateTime :=
  ⟨2026, 1, 2, 12, 0, 0, 0, isDate_noon, time_noon⟩

def pingCall : Call where
  eventType := text "ping"
  itemId := text "P27"
  payload := [(text "msg", .str (text "hello"))]
  idempotencyKey := some (text "k1")
  now := noon

def pongCall : Call :=
  { pingCall with itemId := text "P28", idempotencyKey := some (text "k2") }

def request (call : Call) : Action :=
  .deliver sampleClient.headers (sampleClient.body call) noon

def edited (call : Call) (key : Str) : Action :=
  .deliver sampleClient.headers
    (insertMember (text "idempotency_key") (.str key) (sampleClient.body call)) noon

theorem good_pings {call : Call} (h : call = pingCall ∨ call = pongCall) :
  Good (.obj call.content) ∧ PlainText (sampleClient.signer.signatureOf (.obj call.content) (format call.now))
  := by
  have hpayload : Good (.obj pingCall.payload) := by
    refine ⟨by decide, (by decide : PlainText (text "msg")), (by decide : PlainText (text "hello")), trivial⟩
  rcases h with rfl | rfl
  · exact ⟨good_content ⟨rfl, (by decide : PlainText (text "ping"))⟩
      ⟨rfl, (by decide : PlainText (text "P27"))⟩ hpayload, by decide +kernel⟩
  · exact ⟨good_content ⟨rfl, (by decide : PlainText (text "ping"))⟩
      ⟨rfl, (by decide : PlainText (text "P28"))⟩ hpayload, by decide +kernel⟩

/-- A call that is delivered twice is answered from the cache the second time. -/
theorem once_of_keyKept_ping :
  OnceEach ([Action.send pingCall, request pingCall, request pingCall].foldl (after sampleServer) {}) ∧
    Answered ([Action.send pingCall, request pingCall, request pingCall].foldl (after sampleServer) {})
  := by
  obtain ⟨hgood, hsignature⟩ := good_pings (.inl rfl)
  have hkey : Good pingCall.key := ⟨rfl, (by decide : PlainText (text "k1"))⟩
  have hsent : Assumed sampleServer {} (.send pingCall) := ⟨⟨_, rfl⟩, by simp, hgood.1⟩
  have hassumed : ∀ w : World, pingCall ∈ w.sent → Assumed sampleServer w (request pingCall) :=
    fun _ hmem => assumed_body hmem hgood hkey hsignature
  have hkept : ∀ w : World, pingCall ∈ w.sent → KeyKept sampleServer w (request pingCall) :=
    fun _ hmem => keyKept_body hmem
  refine once_of_keyKept formatOnly_plain ?_ ?_ List.prefix_rfl
  · refine along_cons.mpr ⟨hsent, along_cons.mpr ⟨hassumed _ ?_, along_cons.mpr ⟨hassumed _ ?_, along_nil⟩⟩⟩
    · decide
    · decide +kernel
  · refine along_cons.mpr ⟨⟨by decide, hgood.2⟩,
      along_cons.mpr ⟨hkept _ ?_, along_cons.mpr ⟨hkept _ ?_, along_nil⟩⟩⟩
    · decide
    · decide +kernel

/-- A request that is repeated with another key takes effect twice, and a call with the key of another gets its answer.
-/
theorem not_once :
  (Along (after sampleServer) (Assumed sampleServer) {}
      [.send pingCall, request pingCall, edited pingCall (text "k3")] ∧
    ¬ OnceEach ([.send pingCall, request pingCall, edited pingCall (text "k3")].foldl
      (after sampleServer) {})) ∧
  Along (after sampleServer) (Assumed sampleServer) {}
      [.send pingCall, .send pongCall, request pingCall, edited pongCall (text "k1")] ∧
    ¬ Answered ([.send pingCall, .send pongCall, request pingCall, edited pongCall (text "k1")].foldl
      (after sampleServer) {})
  := by
  obtain ⟨hping, hpingSignature⟩ := good_pings (.inl rfl)
  obtain ⟨hpong, hpongSignature⟩ := good_pings (.inr rfl)
  have hkey : ∀ {k : Str}, PlainText k → Good (.str k) := fun hk => ⟨rfl, hk⟩
  have hfirst : Assumed sampleServer {} (.send pingCall) := ⟨⟨_, rfl⟩, by simp, hping.1⟩
  have hsecond : Assumed sampleServer (after sampleServer {} (.send pingCall)) (.send pongCall) :=
    ⟨⟨_, rfl⟩, by decide, hpong.1⟩
  have hrequest : ∀ w : World, pingCall ∈ w.sent → Assumed sampleServer w (request pingCall) :=
    fun _ hmem => assumed_body hmem hping (hkey (by decide : PlainText (text "k1"))) hpingSignature
  refine ⟨⟨?_, ?_⟩, ?_, ?_⟩
  · refine along_cons.mpr ⟨hfirst, along_cons.mpr ⟨hrequest _ ?_, along_cons.mpr ⟨?_, along_nil⟩⟩⟩
    · decide
    · exact assumed_body (by decide +kernel) hping (hkey (by decide)) hpingSignature
  · rintro ⟨calls, hnodup, hsub, hcalls⟩
    have htwo : ([.send pingCall, request pingCall, edited pingCall (text "k3")].foldl
        (after sampleServer) {}).memory.served.length = 2 := by decide +kernel
    have hone : ([.send pingCall, request pingCall, edited pingCall (text "k3")].foldl
        (after sampleServer) {}).sent.length = 1 := by decide +kernel
    have hle := (hnodup.subperm hsub).length_le
    rw [← hcalls.length_eq] at hle
    omega
  · refine along_cons.mpr ⟨hfirst, along_cons.mpr ⟨hsecond,
      along_cons.mpr ⟨hrequest _ (by decide), along_cons.mpr ⟨?_, along_nil⟩⟩⟩⟩
    exact assumed_body (by decide +kernel) hpong (hkey (by decide)) hpongSignature
  · intro hanswered
    have hserved : ([.send pingCall, .send pongCall, request pingCall, edited pongCall (text "k1")].foldl
        (after sampleServer) {}).memory.served.all
          (fun done => done.request.content = pingCall.content) = true := by decide +kernel
    have hreply : (insertMember (text "idempotency_key") (.str (text "k1")) (sampleClient.body pongCall),
        { statusCode := 200, data := [(text "item_id", .str (text "P27")), (text "status", .str (text "ACK"))],
          isCached := true : RPCResponse }) ∈
        ([.send pingCall, .send pongCall, request pingCall, edited pongCall (text "k1")].foldl
          (after sampleServer) {}).replies := by decide +kernel
    obtain ⟨done, hdone, hcontent, -⟩ := hanswered _ hreply rfl
    have hother := of_decide_eq_true (List.all_eq_true.mp hserved done hdone)
    exact absurd (hother.symm.trans hcontent) (by decide +kernel)

end Courier.Rpc
