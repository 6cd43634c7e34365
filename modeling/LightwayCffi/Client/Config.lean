import LightwayCffi.Client.StateCallbacks

/-!
# Settings and their validation

The host configures a client through `he_conn_set_*` and `he_ssl_ctx_set_*`, asks
`he_client_is_config_valid` whether it is ready, and connects. The setters take no lock, and some of
them copy what they are given while others look at it first: the name of the server is checked for
UTF-8 when it is set, the credentials and the SNI host name are not, and are checked by
`he_client_connect` instead.

`Using` extends the runs of `Calling` by the setters, which the host may call at any time. Setters
of settings that no modelled function reads (the other callbacks, the MTU, the context pointer and
the switches that are handed on to the core) are one setting here, `unread`.

`configValid_agrees_iff` compares the two checks. They ask for the same settings, so they agree
about what is missing. They do not agree about what is malformed: a client that
`he_client_is_config_valid` calls ready cannot connect if a credential or the SNI host name is not
UTF-8.
-/

namespace LightwayCffi.Client

open Relation (ReflTransGen)

variable {env : Env}

/-! ## The setters -/

/-- `CStr::from_ptr`: the bytes up to the first NUL. -/
def cStrFromPtr (memory : Bytes) : Bytes := memory.takeWhile (· ≠ 0)

/-- `CString::new`, which refuses a NUL inside. -/
def cStringNew (bytes : Bytes) : Option Bytes := if 0 ∈ bytes then none else some bytes

/-- A setter of a C string; a null pointer is no memory. -/
def setCString (store : Bytes → HeClient) (client : HeClient) :
    Option Bytes → HeClient × HeReturnCode
  | none => (client, .errNullPointer)
  | some memory =>
    match cStringNew (cStrFromPtr memory) with
    | some s => (store s, .success)
    | none => (client, .errBadParam)

/-- A setter of a buffer. -/
def setBuffer (store : Bytes → HeClient) (client : HeClient) :
    Option Bytes → HeClient × HeReturnCode
  | none => (client, .errNullPointer)
  | some bytes => (store bytes, .success)

/-- `he_conn_set_username`. -/
def heConnSetUsername (client : HeClient) (username : Option Bytes) : HeClient × HeReturnCode :=
  setCString (fun s => { client with conn.username := some s }) client username

/-- `he_conn_set_password`. -/
def heConnSetPassword (client : HeClient) (password : Option Bytes) : HeClient × HeReturnCode :=
  setCString (fun s => { client with conn.password := some s }) client password

/-- `he_conn_set_sni_hostname`. -/
def heConnSetSniHostname (client : HeClient) (hostname : Option Bytes) : HeClient × HeReturnCode :=
  setCString (fun s => { client with conn.sniHostname := some s }) client hostname

/-- `he_conn_set_auth_token`. -/
def heConnSetAuthToken (client : HeClient) (token : Option Bytes) : HeClient × HeReturnCode :=
  setBuffer (fun bytes => { client with conn.authToken := some bytes }) client token

/-- `he_ssl_ctx_set_ca`. -/
def heSslCtxSetCa (client : HeClient) (caCert : Option Bytes) : HeClient × HeReturnCode :=
  setBuffer (fun bytes => { client with sslCtx.caCert := some bytes }) client caCert

/-- `he_ssl_ctx_set_server_dn`, the one setter that checks for UTF-8. -/
def heSslCtxSetServerDn (client : HeClient) : Option Bytes → HeClient × HeReturnCode
  | none => (client, .errNullPointer)
  | some memory =>
    if isUtf8 (cStrFromPtr memory) then
      ({ client with sslCtx.serverDn := some (cStrFromPtr memory) }, .success)
    else (client, .errBadParam)

/-- `he_ssl_ctx_set_connection_type`. -/
def heSslCtxSetConnectionType (client : HeClient) (connectionType : ℤ) : HeClient × HeReturnCode :=
  if connectionType = 0 then ({ client with sslCtx.connectionType := .datagram }, .success)
  else if connectionType = 1 then ({ client with sslCtx.connectionType := .stream }, .success)
  else (client, .errBadParam)

/-- A setter of the host, with its argument. -/
inductive Setting where
  | username (username : Option Bytes)
  | password (password : Option Bytes)
  | sniHostname (hostname : Option Bytes)
  | authToken (token : Option Bytes)
  | ca (caCert : Option Bytes)
  | serverDn (serverDn : Option Bytes)
  | connectionType (connectionType : ℤ)
  | useChacha20 (useChacha20 : Bool)
  | outsideWriteCb
  | stateChangeCb
  | nudgeTimeCb
  | unread

/-- What the setter does. -/
def Setting.apply (client : HeClient) : Setting → HeClient × HeReturnCode
  | .username s => heConnSetUsername client s
  | .password s => heConnSetPassword client s
  | .sniHostname s => heConnSetSniHostname client s
  | .authToken bytes => heConnSetAuthToken client bytes
  | .ca bytes => heSslCtxSetCa client bytes
  | .serverDn s => heSslCtxSetServerDn client s
  | .connectionType n => heSslCtxSetConnectionType client n
  | .useChacha20 b => ({ client with sslCtx.useChacha20 := b }, .success)
  | .outsideWriteCb => ({ client with sslCtx.outsideWriteCb := true }, .success)
  | .stateChangeCb => ({ client with sslCtx.stateChangeCb := true }, .success)
  | .nudgeTimeCb => ({ client with sslCtx.nudgeTimeCb := true }, .success)
  | .unread => (client, .success)

/-- `he_client_create`. -/
def heClientCreate : HeClient where
  sslCtx :=
    { outsideWriteCb := false, caCert := none, connectionType := .datagram, useChacha20 := false,
      serverDn := none, stateChangeCb := false, nudgeTimeCb := false }
  conn :=
    { username := none, password := none, authToken := none, sniHostname := none, state := .none,
      nudgeTimeMs := 0, nudgeTimeAt := 0 }
  connection := none

/-- The world after a setter. -/
def World.set (w : World) (setting : Setting) : World :=
  { w with toHeClient := (setting.apply w.toHeClient).1 }

/-- A host that uses the client: it calls a setter or an entry point. -/
inductive Using (env : Env) : World → World → Prop
  | set (w : World) (setting : Setting) : Using env w (w.set setting)
  | call (w : World) (call : ApiCall) : Using env w (call.step env w)

/-- What a setter leaves alone. -/
structure SetFrame (client client' : HeClient) : Prop where
  connection : client'.connection = client.connection
  state : client'.conn.state = client.conn.state
  nudgeTimeMs : client'.conn.nudgeTimeMs = client.conn.nudgeTimeMs
  stateChangeCb : client.sslCtx.stateChangeCb = true → client'.sslCtx.stateChangeCb = true
  serverDn : client.sslCtx.serverDn.all isUtf8 = true → client'.sslCtx.serverDn.all isUtf8 = true

theorem SetFrame.refl (client : HeClient) : SetFrame client client := ⟨rfl, rfl, rfl, id, id⟩

/-- A C string has no NUL inside, so that it can always be stored. -/
theorem cStringNew_cStrFromPtr (memory : Bytes) :
    cStringNew (cStrFromPtr memory) = some (cStrFromPtr memory) := by
  refine if_neg fun hmem => ?_
  have hall : (cStrFromPtr memory).all (· ≠ 0) = true := List.all_takeWhile
  have hne := List.all_eq_true.1 hall 0 hmem
  simp at hne

/-- What holds of the client and of every client with a new string, holds after the setter. -/
theorem setCString_of {P : HeClient → Prop} {store : Bytes → HeClient} {client : HeClient}
    (memory : Option Bytes) (hclient : P client) (hstore : ∀ s, P (store s)) :
    P (setCString store client memory).1 := by
  cases memory with
  | none => exact hclient
  | some memory =>
    rw [setCString, cStringNew_cStrFromPtr]
    exact hstore _

theorem setBuffer_of {P : HeClient → Prop} {store : Bytes → HeClient} {client : HeClient}
    (buffer : Option Bytes) (hclient : P client) (hstore : ∀ bytes, P (store bytes)) :
    P (setBuffer store client buffer).1 := by
  cases buffer with
  | none => exact hclient
  | some bytes => exact hstore bytes

/-- **What every setter leaves alone**: the connection and its state, a callback that is registered,
and the name of the server if it is UTF-8. -/
theorem Setting.frame (setting : Setting) (client : HeClient) :
    SetFrame client (setting.apply client).1 := by
  cases setting with
  | username s => exact setCString_of s (.refl client) fun _ => ⟨rfl, rfl, rfl, id, id⟩
  | password s => exact setCString_of s (.refl client) fun _ => ⟨rfl, rfl, rfl, id, id⟩
  | sniHostname s => exact setCString_of s (.refl client) fun _ => ⟨rfl, rfl, rfl, id, id⟩
  | authToken bytes => exact setBuffer_of bytes (.refl client) fun _ => ⟨rfl, rfl, rfl, id, id⟩
  | ca bytes => exact setBuffer_of bytes (.refl client) fun _ => ⟨rfl, rfl, rfl, id, id⟩
  | serverDn s =>
    cases s with
    | none => exact .refl client
    | some memory =>
      rw [apply, heSslCtxSetServerDn]
      split_ifs with hutf8
      · exact ⟨rfl, rfl, rfl, id, fun _ => hutf8⟩
      · exact .refl client
  | connectionType n =>
    rw [apply, heSslCtxSetConnectionType]
    split_ifs
    · exact ⟨rfl, rfl, rfl, id, id⟩
    · exact ⟨rfl, rfl, rfl, id, id⟩
    · exact .refl client
  | useChacha20 b => exact ⟨rfl, rfl, rfl, id, id⟩
  | outsideWriteCb => exact ⟨rfl, rfl, rfl, id, id⟩
  | stateChangeCb => exact ⟨rfl, rfl, rfl, fun _ => rfl, id⟩
  | nudgeTimeCb => exact ⟨rfl, rfl, rfl, id, id⟩
  | unread => exact .refl client

/-- No other setter registers a state callback. -/
theorem Setting.apply_stateChangeCb {setting : Setting} (h : setting ≠ .stateChangeCb)
    (client : HeClient) :
    (setting.apply client).1.sslCtx.stateChangeCb = client.sslCtx.stateChangeCb := by
  let Same (client' : HeClient) := client'.sslCtx.stateChangeCb = client.sslCtx.stateChangeCb
  have hsame : Same client := rfl
  cases setting with
  | username s => exact setCString_of (P := Same) s hsame fun _ => rfl
  | password s => exact setCString_of (P := Same) s hsame fun _ => rfl
  | sniHostname s => exact setCString_of (P := Same) s hsame fun _ => rfl
  | authToken bytes => exact setBuffer_of (P := Same) bytes hsame fun _ => rfl
  | ca bytes => exact setBuffer_of (P := Same) bytes hsame fun _ => rfl
  | serverDn s =>
    cases s with
    | none => rfl
    | some memory =>
      rw [apply, heSslCtxSetServerDn]
      split_ifs <;> rfl
  | connectionType n =>
    rw [apply, heSslCtxSetConnectionType]
    split_ifs <;> rfl
  | stateChangeCb => exact absurd rfl h
  | useChacha20 b => rfl
  | outsideWriteCb => rfl
  | nudgeTimeCb => rfl
  | unread => rfl

/-! ## The two checks -/

/-- `he_client_is_config_valid`. -/
def heClientIsConfigValid (client : HeClient) : HeReturnCode :=
  let hasUserPass := client.conn.username.isSome && client.conn.password.isSome
  let hasToken := client.conn.authToken.isSome
  if !hasUserPass && !hasToken then .errConfNotSet
  else if !client.sslCtx.outsideWriteCb then .errConfNotSet
  else if client.sslCtx.caCert.isNone then .errConfNotSet
  else .success

/-- The credentials that connecting uses: user and password if both are set, else the token. -/
def HeConn.credentials (conn : HeConn) : List Bytes :=
  match conn.username, conn.password with
  | some user, some pass => [user, pass]
  | _, _ => conn.authToken.toList

/-- Every setting that connecting needs is there. -/
def HeClient.complete (client : HeClient) : Bool :=
  !client.conn.credentials.isEmpty && client.sslCtx.outsideWriteCb && client.sslCtx.caCert.isSome

theorem heClientIsConfigValid_eq (client : HeClient) :
    heClientIsConfigValid client = if client.complete then .success else .errConfNotSet := by
  unfold heClientIsConfigValid HeClient.complete HeConn.credentials
  rcases client.conn.username with _ | user <;> rcases client.conn.password with _ | pass <;>
    rcases client.conn.authToken with _ | token <;> cases client.sslCtx.outsideWriteCb <;>
    cases client.sslCtx.caCert <;> rfl

theorem authCheck_eq (conn : HeConn) :
    authCheck conn = if conn.credentials.isEmpty then .error .errConfNotSet
      else ensure (conn.credentials.all isUtf8) .errBadParam := by
  unfold authCheck HeConn.credentials
  rcases conn.username with _ | user <;> rcases conn.password with _ | pass <;>
    rcases conn.authToken with _ | token <;> simp

/-- **What connecting checks** when there is no connection and the name of the server is UTF-8: that
everything is there, that the credentials are UTF-8, and, after the core has been set up, that the
SNI host name is. -/
theorem clientConnectChecks_eq {client : HeClient} (i : ConnectInput)
    (hc : client.connection = none) (hdn : client.sslCtx.serverDn.all isUtf8 = true) :
    clientConnectChecks client i =
      if !client.complete then .error .errConfNotSet
      else if !client.conn.credentials.all isUtf8 then .error .errBadParam
      else if !(i.contextBuilt && (!client.sslCtx.useChacha20 || i.cipherSet) && i.started) then
        .error .errSslError
      else ensure (client.conn.sniHostname.all isUtf8) .errBadParam := by
  unfold clientConnectChecks HeClient.complete
  rw [authCheck_eq, hc, hdn]
  cases client.sslCtx.outsideWriteCb with
  | false => simp [ensure, bind, Except.bind]
  | true =>
    cases client.sslCtx.caCert with
    | none => simp [ensure, bind, Except.bind]
    | some caCert =>
      cases client.conn.credentials.isEmpty with
      | true => simp [ensure, bind, Except.bind]
      | false =>
        cases client.conn.credentials.all isUtf8 with
        | false => simp [ensure, bind, Except.bind]
        | true =>
          cases i.contextBuilt <;> cases client.sslCtx.useChacha20 <;> cases i.cipherSet <;>
            cases i.started <;> simp [ensure, bind, Except.bind]

theorem connect_code (w : World) (i : ConnectInput) :
    (ApiCall.connect i).code env w = (clientConnectLocked env w i).2.getD .errFailed := rfl

/-- Past its checks, connecting fails with neither of their codes. -/
theorem connect_code_of_ok {w : World} {i : ConnectInput}
    (h : clientConnectChecks w.toHeClient i = .ok ()) :
    (ApiCall.connect i).code env w ≠ .errConfNotSet ∧
      (ApiCall.connect i).code env w ≠ .errBadParam := by
  rw [connect_code, clientConnectLocked, h]
  dsimp only
  split
  · simp
  · simp
  · simp

theorem connect_code_of_error {w : World} {i : ConnectInput} {code : HeReturnCode}
    (h : clientConnectChecks w.toHeClient i = .error code) :
    (ApiCall.connect i).code env w = code := by
  rw [connect_code, clientConnectLocked, h]
  rfl

/-- Everything that connecting decodes is UTF-8. -/
def HeClient.decodable (client : HeClient) : Bool :=
  client.conn.credentials.all isUtf8 && client.conn.sniHostname.all isUtf8

/-- `he_client_is_config_valid` says yes if and only if connecting gets past its own checks,
whatever the core answers. -/
def Agrees (env : Env) (w : World) : Prop :=
  ∀ i : ConnectInput, heClientIsConfigValid w.toHeClient = .success ↔
    (ApiCall.connect i).code env w ≠ .errConfNotSet ∧
      (ApiCall.connect i).code env w ≠ .errBadParam

/-- The two checks agree on a client if it is incomplete or can be decoded. -/
theorem agrees_iff {w : World} (hc : w.connection = none)
    (hdn : w.sslCtx.serverDn.all isUtf8 = true) :
    Agrees env w ↔ (w.complete = true → w.decodable = true) := by
  have hchecks (i : ConnectInput) := clientConnectChecks_eq i hc hdn
  unfold Agrees
  simp only [heClientIsConfigValid_eq]
  constructor
  · intro hagrees hcomplete
    -- a core that answers every call with success
    have hcode := (hagrees (sampleConnect [])).1 (if_pos hcomplete)
    have hyes := hchecks (sampleConnect [])
    rw [hcomplete] at hyes
    by_contra hdecodable
    rw [HeClient.decodable, Bool.and_eq_true, not_and_or, Bool.not_eq_true, Bool.not_eq_true]
      at hdecodable
    have hbad : clientConnectChecks w.toHeClient (sampleConnect []) = .error .errBadParam := by
      rw [hyes]
      rcases hdecodable with hcred | hsni
      · simp [hcred]
      · simp [hsni, ensure, sampleConnect]
    exact hcode.2 (connect_code_of_error hbad)
  · intro hdecodable i
    have hi := hchecks i
    cases hcomplete : w.complete with
    | false =>
      rw [hcomplete] at hi
      simp [connect_code_of_error hi]
    | true =>
      have hdec := hdecodable hcomplete
      rw [HeClient.decodable, Bool.and_eq_true] at hdec
      rw [hcomplete, hdec.1, hdec.2] at hi
      simp only [Bool.not_true, Bool.false_eq_true, if_false, ensure, if_true] at hi
      refine ⟨fun _ => ?_, fun _ => rfl⟩
      split_ifs at hi with hbuilt
      · rw [connect_code_of_error hi]
        simp
      · exact connect_code_of_ok hi

/-! ## Runs -/

/-- No call changes the settings. -/
theorem sslCtx_stable (ctx : HeSslCtx) :
    Stable (fun w => w.sslCtx = ctx) (fun w _ => w.sslCtx = ctx) where
  world h := h
  advance h := h
  opened h _ := h
  core hstep h := hstep.frame.sslCtx.trans h
  put _ h := h
  refreshed h := h
  connected _ h := (completeConnect_sslCtx _ _).trans h
  killed h := (fatalDisconnect_sslCtx _).trans h
  disconnected h := (completeDisconnect_sslCtx _).trans h

theorem run_sslCtx {w₀ w : World} (hrun : ReflTransGen (Calling env) w₀ w) :
    w.sslCtx = w₀.sslCtx := by
  suffices Between (fun w => w.sslCtx = w₀.sslCtx) (fun w _ => w.sslCtx = w₀.sslCtx) w from
    this.world
  induction hrun with
  | refl => exact ⟨rfl, fun _ _ => rfl⟩
  | tail _ hstep ih =>
    obtain ⟨call, rfl⟩ := hstep
    refine (sslCtx_stable _).step (fun hstep h => hstep.frame.sslCtx.trans h) ?_ call ih
    exact fun h => ⟨h.world, fun _ _ => h.world⟩

/-- The name of the server is UTF-8, whatever the host does. -/
theorem run_serverDn {w₀ w : World} (hnew : w₀.toHeClient = heClientCreate)
    (hrun : ReflTransGen (Using env) w₀ w) : w.sslCtx.serverDn.all isUtf8 = true := by
  induction hrun with
  | refl =>
    rw [hnew]
    rfl
  | tail _ hstep ih =>
    cases hstep with
    | set setting => exact (setting.frame _).serverDn ih
    | call call =>
      rw [run_sslCtx (.single ⟨call, rfl⟩)]
      exact ih

/-- **When validation agrees with connecting.** In every state without a connection that a host can
bring a new client to, `he_client_is_config_valid` returns `HE_SUCCESS` if and only if
`he_client_connect` returns neither `HE_ERR_CONF_NOT_SET` nor `HE_ERR_BAD_PARAM`, whatever the core
answers, exactly if a setting is missing or all that connecting decodes is UTF-8: the credentials
that it uses, and the SNI host name. -/
theorem configValid_agrees_iff (env : Env) {w₀ w : World} (hnew : w₀.toHeClient = heClientCreate)
    (hrun : ReflTransGen (Using env) w₀ w) (hc : w.connection = none) :
    Agrees env w ↔ (w.complete = true → w.decodable = true) :=
  agrees_iff hc (run_serverDn hnew hrun)

/-- A new client. -/
def newWorld : World where
  toHeClient := heClientCreate
  now := 0
  trace := []

/-- Every sequence of setters is a run. -/
theorem using_foldl (settings : List Setting) (w : World) :
    ReflTransGen (Using env) w (settings.foldl World.set w) := by
  induction settings generalizing w with
  | nil => exact .refl
  | cons setting settings ih => exact .head (.set w setting) (ih _)

/-- A client with everything it needs, and this token. -/
def tokenSettings (token : Bytes) : List Setting :=
  [.authToken (some token), .outsideWriteCb, .ca (some [])]

def tokenWorld (token : Bytes) : World := (tokenSettings token).foldl World.set newWorld

/-- The token is not UTF-8: the client is called ready, and cannot connect. -/
theorem configValid_malformed_token :
    ReflTransGen (Using sampleEnv) newWorld (tokenWorld [255]) ∧
      (tokenWorld [255]).connection = none ∧
      heClientIsConfigValid (tokenWorld [255]).toHeClient = .success ∧
      (ApiCall.connect (sampleConnect [])).code sampleEnv (tokenWorld [255]) = .errBadParam :=
  ⟨using_foldl _ _, rfl, rfl, by decide⟩

/-- With a token in ASCII the two checks agree. -/
theorem configValid_agrees_iff_ascii : Agrees sampleEnv (tokenWorld [116, 111, 107]) :=
  (configValid_agrees_iff sampleEnv rfl (using_foldl _ newWorld) rfl).2 fun _ => by decide

end LightwayCffi.Client
