import WireContract.Proofs.InPlace.Registry
import WireContract.Proofs.Service.Cookies
import WireContract.Proofs.Service.SchemaFree
import WireContract.Proofs.Wire.Parameters

/-!
# What a handler can rely on

A handler runs only on a call that passed every check, and what is checked is what the signature of
the method says: the session and the credentials are there because a parameter asks for them. What
the handler leaves is what the client gets, once its result has passed the last check.

* `Registry.Registered`: the signature that a method was registered with;
* `recording`: a handler under observation, with the calls it gets and what it leaves;
* `Call.Fits`: a call in terms of the signature and of the request; `fits_of_admitted`;
* `respond_eq_ok`: what a response is made of;
* `dispatch_hands_over_checked_calls`: the whole way of a request.
-/

namespace WireContract

/-! ## 1. The signature of a method -/

namespace Registry

variable {start : Registry} {calls : List Signature} {s : Signature} {m : Method}

/-- One of the calls registered the signature, and this is the method that came of it. -/
def Registered (start : Registry) (calls : List Signature) (s : Signature) (m : Method) : Prop :=
  ∃ before rest r, calls = before ++ s :: rest ∧ (start.after before).register s = .ok (m, r)

theorem Registered.concat (h : start.Registered calls s m) (last : Signature) :
    start.Registered (calls ++ [last]) s m := by
  obtain ⟨before, rest, r, rfl, hr⟩ := h
  exact ⟨before, rest ++ [last], r, by simp, hr⟩

theorem Registered.method_eq (h : start.Registered calls s m) : ∃ params, m = s.method params := by
  obtain ⟨before, rest, r, -, hr⟩ := h
  exact ⟨_, (register_yields _ s _ hr).1⟩

/-- **Every method comes of a signature**, save for those that were there before. -/
theorem registered_of_mem_after (hm : m ∈ (start.after calls).methods) :
    m ∈ start.methods ∨ ∃ s, start.Registered calls s m := by
  induction calls using List.reverseRecOn with
  | nil => exact Or.inl hm
  | append_singleton calls last ih =>
    have hkept : m ∈ (start.after calls).methods →
        m ∈ start.methods ∨ ∃ s, start.Registered (calls ++ [last]) s m :=
      fun hm => (ih hm).imp_right fun ⟨s, hs⟩ => ⟨s, hs.concat last⟩
    rw [after_concat] at hm
    cases hlast : (start.after calls).register last with
    | error fault =>
      rw [hlast] at hm
      exact hkept hm
    | ok registered =>
      obtain ⟨new, r⟩ := registered
      rw [hlast] at hm
      have hmethods : r.methods = (start.after calls).methods ++ [new] :=
        (register_yields _ last _ hlast).2.1
      rcases List.mem_append.mp (hmethods ▸ hm) with hm | hm
      · exact hkept hm
      · obtain rfl := List.mem_singleton.mp hm
        exact Or.inr ⟨last, calls, [], r, rfl, hlast⟩

end Registry

namespace Signature

variable {s : Signature}

theorem usesSession_iff : s.usesSession = true ↔ sessionParameter ∈ s.params.map (·.name) := by
  simp [usesSession, sessionTypes]

theorem usesCredentials_iff :
    s.usesCredentials = true ↔ credentialsParameter ∈ s.params.map (·.name) := by
  simp [usesCredentials]

/-- The last session parameter decides whether the session may be missing. -/
theorem sessionOptional_of_last {before rest : List Param} {p : Param}
    (hparams : s.params = before ++ p :: rest) (hp : p.name = sessionParameter)
    (hrest : sessionParameter ∉ rest.map (·.name)) : s.sessionOptional = p.ty.admitsAbsence := by
  have hnone : sessionTypesIn rest = [] := by
    refine sessionTypesIn_eq_nil_iff.mpr (List.all_eq_true.mpr fun q hq => ?_)
    exact bne_iff_ne.mpr fun h => hrest (h ▸ List.mem_map_of_mem hq)
  rw [sessionOptional, sessionTypes_of_params hparams, sessionTypesIn_split, if_pos hp, hnone]
  simp

end Signature

namespace Service

/-! ## 2. Calls -/

/-- A handler that keeps a record of the calls it gets, each with what it leaves of it. -/
def recording {S : Type} {e : Type → Type} [Monad e] (handler : Call S → e Handled)
    (call : Call S) : StateT (List (Call S × Handled)) e Handled := do
  let handled ← handler call
  modify (· ++ [(call, handled)])
  return handled

/-- What a call brings along: the arguments that the body decodes to, the session that the store
    has for the last identifier in the header, and the credentials in the header -- session and
    credentials if a parameter of the signature asks for them. -/
structure Call.Fits {σ S : Type} (call : Call S) (d : Dispatcher σ S) (s : Signature)
    (request : Request) : Prop where
  arguments : call.method.decode d.registry.types request.body = .ok call.arguments
  session : call.session =
    if sessionParameter ∈ s.params.map (·.name) then
      (Credentials.lastValue? Credentials.sessionName (request.cookie.getD "")).bind d.sessions
    else none
  session_present : ∀ before p rest, s.params = before ++ p :: rest → p.name = sessionParameter →
    sessionParameter ∉ rest.map (·.name) → p.ty.admitsAbsence = false → call.session.isSome = true
  credentials : call.credentials =
    if credentialsParameter ∈ s.params.map (·.name) then
      some (Credentials.ofHeader? request.cookie)
    else none

section Calls

variable {σ S : Type} {d : Dispatcher σ S} {m : Method} {s : Signature} {request : Request}
  {call : Call S}

theorem decode_of_arguments {arguments : Arguments}
    (h : d.arguments request m = .ok arguments) :
    m.decode d.registry.types request.body = .ok arguments := by
  unfold Dispatcher.arguments at h
  split at h
  · rename_i decoded hdecoded
    rw [hdecoded, Except.ok.inj h]
  · cases h
  · cases h

/-- A session that is there, or one that may be missing. -/
theorem session_eq_ok {c : Credentials} {session : Option S}
    (h : d.session m c = .ok session) :
    session = (if m.usesSession then c.sessionId?.bind d.sessions else none) ∧
      (m.usesSession = true → m.sessionOptional = false → session.isSome = true) := by
  unfold Dispatcher.session at h
  split at h
  · rename_i huses
    rw [if_pos huses]
    split at h
    · rename_i found hfound
      obtain rfl := Except.ok.inj h
      exact ⟨hfound.symm, fun _ _ => rfl⟩
    · rename_i hnone
      split at h
      · rename_i hoptional
        obtain rfl := Except.ok.inj h
        exact ⟨hnone.symm, fun _ h => absurd hoptional (by simp [h])⟩
      · cases h
  · rename_i huses
    obtain rfl := Except.ok.inj h
    rw [if_neg huses]
    exact ⟨rfl, fun h => absurd h huses⟩

theorem admitted_eq_ok (h : d.admitted request m = .ok call) :
    d.arguments request m = .ok call.arguments ∧
      d.session m (Credentials.ofHeader? request.cookie) = .ok call.session ∧
      call.credentials =
        (if m.usesCredentials then some (Credentials.ofHeader? request.cookie) else none) ∧
      call.method = m := by
  unfold Dispatcher.admitted at h
  cases harguments : d.arguments request m with
  | error fault =>
    rw [harguments] at h
    cases h
  | ok arguments =>
    cases hsession : d.session m (Credentials.ofHeader? request.cookie) with
    | error fault =>
      simp only [harguments, hsession, bind, Except.bind] at h
      cases h
    | ok session =>
      simp only [harguments, hsession, bind, Except.bind, pure, Except.pure] at h
      obtain rfl := Except.ok.inj h
      exact ⟨rfl, rfl, rfl, rfl⟩

/-- What passed all checks is a call of the method that the route names. -/
theorem prepare_eq_ok {now : Nat} {state : σ} (h : (d.prepare now request state).1 = .ok call) :
    ∃ m ∈ d.registry.methods, m.name = Dispatcher.routeName request.route ∧
      d.admitted request m = .ok call := by
  unfold Dispatcher.prepare at h
  dsimp only at h
  split at h
  · cases h
  · rename_i m hmethod
    have hname : m.name = Dispatcher.routeName request.route := by
      simpa using List.find?_some hmethod
    split at h
    · cases h
    · exact ⟨m, List.mem_of_find?_eq_some hmethod, hname, h⟩

/-- **A call that passed the checks is what the signature of its method asks for.** -/
theorem fits_of_admitted {params : DefId} (h : d.admitted request (s.method params) = .ok call) :
    call.Fits d s request := by
  obtain ⟨harguments, hsession, hcredentials, hmethod⟩ := admitted_eq_ok h
  obtain ⟨hvalue, hpresent⟩ := session_eq_ok hsession
  constructor
  case arguments =>
    rw [hmethod]
    exact decode_of_arguments harguments
  case session =>
    have hid : (Credentials.ofHeader? request.cookie).sessionId? =
        Credentials.lastValue? Credentials.sessionName (request.cookie.getD "") :=
      Credentials.get?_ofHeader _ _
    rw [hvalue, hid]
    exact if_congr Signature.usesSession_iff rfl rfl
  case session_present =>
    intro before p rest hparams hp hrest habsence
    have huses : s.usesSession = true := by
      rw [Signature.usesSession_iff, hparams, ← hp]
      simp
    exact hpresent huses ((Signature.sessionOptional_of_last hparams hp hrest).trans habsence)
  case credentials =>
    rw [hcredentials]
    exact if_congr Signature.usesCredentials_iff rfl rfl

/-- Credentials that a call brings along have nothing queued, so behind changes they have queued
    just these. -/
theorem Call.Fits.queued_changed (h : call.Fits d s request) (changes : List Change) :
    ((call.credentials.map (·.changed changes)).map (·.queued)).getD [] =
      if call.credentials.isSome then changes.map Change.header else [] := by
  rw [h.credentials]
  split
  · exact Credentials.queued_changed _ changes
  · rfl

end Calls

/-! ## 3. Responses -/

/-- What the client gets in any case. -/
def reply : Except Fault Response → Response
  | .ok response => response
  | .error fault => fault.response

theorem Fault.status_response_ne (fault : Fault) : fault.response.status ≠ 200 := by
  cases fault <;> simp [response, status]

/-- **A response of success is made of a checked result and of the queued headers.** -/
theorem respond_eq_ok {σ S : Type} {d : Dispatcher σ S} {m : Method} {handled : Handled}
    {response : Response} (h : d.respond m handled = .ok response) :
    ∃ result checked, handled.result = .ok result ∧
      Wire.checkFrom d.registry.types 0 m.returns result [] = .ok checked ∧
      response.body = checked.render ∧
      response.setCookies = (handled.credentials.map (·.queued)).getD [] := by
  unfold Dispatcher.respond at h
  split at h
  · cases h
  · rename_i result hresult
    split at h
    · rename_i body hbody
      obtain rfl := Except.ok.inj h
      unfold Codec.encode at hbody
      cases hchecked : Wire.checkFrom d.registry.types 0 m.returns result [] with
      | error fault =>
        rw [hchecked] at hbody
        cases hbody
      | ok checked =>
        rw [hchecked] at hbody
        exact ⟨result, checked, hresult, hchecked, (Except.ok.inj hbody).symm, rfl⟩
    · cases h
    · cases h

/-! ## 4. The whole way -/

/-- **A handler runs only on a call that passed every check**, once, and on none if a check fails;
    the call brings along what the signature of its method asks for. The client gets a success only
    with a result that was checked, and with the changes that the handler made, in order. -/
theorem dispatch_hands_over_checked_calls {σ S : Type} {d : Dispatcher σ S} {types : TypeTable}
    {calls : List Signature} (hd : d.registry = (Registry.ofTypes types).after calls) (now : Nat)
    (request : Request) (state : σ) {e : Type → Type} [Monad e] [LawfulMonad e]
    (handler : Call S → e Handled) :
    Always (fun out =>
      ((∃ fault, (d.prepare now request state).1 = .error fault ∧ out.1.1 = .error fault ∧
          out.2 = []) ∨
        ∃ call handled s, (d.prepare now request state).1 = .ok call ∧ out.2 = [(call, handled)] ∧
          (Registry.ofTypes types).Registered calls s call.method ∧
          s.name = Dispatcher.routeName request.route ∧ call.Fits d s request) ∧
      ((reply out.1.1).status = 200 →
        ∃ call handled result checked, out.2 = [(call, handled)] ∧ handled.result = .ok result ∧
          Wire.checkFrom d.registry.types 0 call.method.returns result [] = .ok checked ∧
          (reply out.1.1).body = checked.render ∧
          (reply out.1.1).setCookies = (handled.credentials.map (·.queued)).getD [] ∧
          ∀ changes, handled.credentials = call.credentials.map (·.changed changes) →
            (reply out.1.1).setCookies =
              if call.credentials.isSome then changes.map Change.header else []))
      ((d.dispatch now request (recording handler) state).run []) := by
  unfold Dispatcher.dispatch
  rcases hprepared : d.prepare now request state with ⟨fault | call, state'⟩
  · refine .pure ⟨Or.inl ⟨fault, rfl, rfl, rfl⟩, fun h => ?_⟩
    exact absurd h fault.status_response_ne
  · have hrun : ((do
        let handled ← recording handler call
        return (d.respond call.method handled, state')).run [] :
          e ((Except Fault Response × σ) × List (Call S × Handled))) =
        (fun handled => ((d.respond call.method handled, state'), [(call, handled)])) <$>
          handler call := by
      simp [recording]
    rw [hrun]
    have hcall : (d.prepare now request state).1 = .ok call := congrArg Prod.fst hprepared
    obtain ⟨m, hm, hname, hadmitted⟩ := prepare_eq_ok hcall
    obtain ⟨s, hs⟩ : ∃ s, (Registry.ofTypes types).Registered calls s m :=
      (Registry.registered_of_mem_after (hd ▸ hm)).resolve_left List.not_mem_nil
    obtain ⟨params, rfl⟩ := hs.method_eq
    have hfits := fits_of_admitted hadmitted
    have hmethod : call.method = s.method params := (admitted_eq_ok hadmitted).2.2.2
    refine .map (fun handled => ⟨?_, fun hstatus => ?_⟩) (handler call)
    · exact Or.inr ⟨call, handled, s, rfl, rfl, hmethod ▸ hs, hname, hfits⟩
    · dsimp only at hstatus ⊢
      cases hresponse : d.respond call.method handled with
      | error fault =>
        rw [hresponse] at hstatus
        exact absurd hstatus fault.status_response_ne
      | ok response =>
        obtain ⟨result, checked, hresult, hchecked, hbody, hcookies⟩ := respond_eq_ok hresponse
        refine ⟨call, handled, result, checked, rfl, hresult, hchecked, hbody, hcookies, ?_⟩
        intro changes hchanges
        rw [← hfits.queued_changed changes, ← hchanges]
        exact hcookies

/-- A signature that asks for the session twice, and for credentials. -/
def leave : Signature where
  name := "leave"
  params := [
    { name := "session", ty := .optional .string },
    { name := "credentials", ty := .any },
    { name := "session", ty := .string }]
  returns := .bool

/-- A service with one method and one open session. -/
def gate : Dispatcher Unit String where
  registry := (Registry.ofTypes {}).after [leave]
  sessions id := if id = "valid" then some "alice" else none
  limiter := .none

/-- A request with an old identifier and the one that counts. -/
def leaving : Request where
  route := "/leave"
  body := [123, 125]
  cookie := some "sessionid=old; sessionid=valid"

/-- A handler that closes the session. -/
def closing (call : Call String) : Id Handled :=
  { result := .ok (.bool true), credentials := call.credentials.map (·.changed [.session none]) }

theorem dispatch_hands_over_checked_calls_gate :
    ∃ call handled, (((gate.dispatch 0 leaving (recording closing) ()).run [] : Id _).2 =
        [(call, handled)]) ∧
      call.session = some "alice" ∧ call.Fits gate leave leaving := by
  have hgate : gate.registry = (Registry.ofTypes {}).after [leave] := rfl
  have hrun := (dispatch_hands_over_checked_calls hgate 0 leaving () closing).of_id
  obtain ⟨fault, hfault, -⟩ | ⟨call, handled, s, hprepared, hseen, hs, -, hfits⟩ := hrun.1
  · cases hfault
  · obtain ⟨before, rest, r, hcalls, -⟩ := hs
    have hleave : s ∈ [leave] := hcalls ▸ List.mem_append_right _ List.mem_cons_self
    obtain rfl := List.mem_singleton.mp hleave
    exact ⟨call, handled, hseen, hfits.session, hfits⟩

end Service

end WireContract
