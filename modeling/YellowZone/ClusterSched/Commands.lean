import YellowZone.ClusterSched.CpuList

/-!
# The commands of the daemon

`vasctl` sends a command as one text: the name of the command, then for every parameter a
semicolon, its key, a colon and its value. The daemon takes what one `recv` gives it, cuts the text
at these signs and runs the command.

Nothing is quoted. So a value with a semicolon or a colon does not arrive, and neither does an empty
one: `std::getline` reads nothing behind a last colon. `command_arrives_iff` is the exact statement.
A parameter that does not arrive is left out without an error.

The parameters are a `std::map`; which entry comes first does not matter here.

## Main results

* `serialize`, `deSerialize` — the two ends
* `socketMsgHandler` — the command that the daemon runs, or its answer
* `command_arrives_iff` — when a command arrives as it was sent
* `request_arrives` — the requests of `vasctl` that the daemon runs as given
-/

namespace YellowZone.ClusterSched

open Machine

abbrev Params : Type := AList fun _ : Text => Text

structure CmdOption where
  option : Text
  params : Params

def paramText (e : Σ _ : Text, Text) : Text := e.1 ++ 58 :: e.2

def serialize (cmdOpt : CmdOption) : Text :=
  cmdOpt.option ++ (cmdOpt.params.entries.map paramText).flatMap (59 :: ·)

/-- A parameter counts if it has exactly two parts. -/
def readParam (params : Params) (token : Text) : Params :=
  match pieces 58 token with
  | [key, value] => params.insert key value
  | _ => params

def deSerialize (cmdStr : Text) : Option CmdOption :=
  match pieces 59 cmdStr with
  | [] => none
  | option :: tokens => some ⟨option, tokens.foldl readParam ∅⟩

/-! ## What arrives -/

variable {c : CmdOption}

/-- The command and its parameters come out as they went in. -/
def Arrives (c : CmdOption) : Prop :=
  ∃ c', deSerialize (serialize c) = some c' ∧ c'.option = c.option ∧
    ∀ k, c'.params.lookup k = c.params.lookup k

/-- Without the signs of the format. -/
def Plain (t : Text) : Prop := 58 ∉ t ∧ 59 ∉ t

theorem readParam_paramText {e : Σ _ : Text, Text} (hkey : Plain e.1) (hvalue : Plain e.2)
    (params : Params) :
    readParam params (paramText e) = if e.2 = [] then params else params.insert e.1 e.2 := by
  rw [readParam, paramText, pieces_line hkey.1]
  split_ifs with hnil
  · rw [hnil, pieces_nil]
  · rw [pieces_of_notMem hvalue.1 hnil]

/-- The parameters with a value are stored. -/
theorem lookup_foldl_readParam {k : Text} (es : List (Σ _ : Text, Text)) : ∀ params : Params,
    es.NodupKeys → (∀ e ∈ es, Plain e.1 ∧ Plain e.2) →
    ((es.map paramText).foldl readParam params).lookup k =
      ((es.filter (·.2 ≠ [])).dlookup k).or (params.lookup k) := by
  induction es with
  | nil => intro params _ _; rfl
  | cons e es ih =>
    obtain ⟨key, value⟩ := e
    intro params hnodup hplain
    obtain ⟨hkey, hvalue⟩ := hplain _ List.mem_cons_self
    rw [List.nodupKeys_cons] at hnodup
    rw [List.map_cons, List.foldl_cons, ih _ hnodup.2 fun e' he' =>
      hplain e' (List.mem_cons_of_mem _ he'), readParam_paramText hkey hvalue]
    split_ifs with hnil
    · rw [List.filter_cons_of_neg (by simpa using hnil)]
    · rw [List.filter_cons_of_pos (by simpa using hnil)]
      by_cases hk : k = key
      · subst hk
        have hout : (es.filter (·.2 ≠ [])).dlookup k = none := List.dlookup_eq_none.mpr fun hmem =>
          hnodup.1 ((List.filter_sublist.map Sigma.fst).subset hmem)
        rw [hout, Option.none_or, AList.lookup_insert, List.dlookup_cons_eq, Option.some_or]
      · rw [AList.lookup_insert_ne hk, List.dlookup_cons_ne _ _ hk]

/-- What the daemon stores has none of the signs. -/
theorem plain_of_lookup {k v : Text} (tokens : List Text) : ∀ params : Params,
    (∀ t ∈ tokens, 59 ∉ t) → (∀ k v, params.lookup k = some v → Plain k ∧ Plain v) →
    (tokens.foldl readParam params).lookup k = some v → Plain k ∧ Plain v := by
  induction tokens with
  | nil => exact fun params _ hparams h => hparams k v h
  | cons t tokens ih =>
    intro params ht hparams h
    refine ih _ (fun t' ht' => ht t' (List.mem_cons_of_mem _ ht')) (fun k v hkv => ?_) h
    rw [readParam] at hkv
    split at hkv
    · next key value hpieces =>
      have hplain : ∀ x ∈ [key, value], Plain x := by
        intro x hx
        obtain ⟨hnot, hsub⟩ := pieces_spec t x (hpieces ▸ hx)
        exact ⟨hnot, fun hmem => ht t List.mem_cons_self (hsub hmem)⟩
      by_cases hk : k = key
      · rw [hk, AList.lookup_insert, Option.some.injEq] at hkv
        exact ⟨hk ▸ hplain key (by simp), hkv ▸ hplain value (by simp)⟩
      · rw [AList.lookup_insert_ne hk] at hkv
        exact hparams k v hkv
    · exact hparams k v hkv

theorem notMem_paramText {e : Σ _ : Text, Text} (hkey : Plain e.1) (hvalue : Plain e.2) :
    59 ∉ paramText e := by
  simp [paramText, hkey.2, hvalue.2]

theorem pieces_serialize (hoption : 59 ∉ c.option) (hne : c.option ≠ [] ∨ c.params.entries ≠ [])
    (hplain : ∀ e ∈ c.params.entries, Plain e.1 ∧ Plain e.2) :
    pieces 59 (serialize c) = c.option :: c.params.entries.map paramText := by
  refine pieces_joined _ _ hoption (hne.imp_right fun h hmap => h (List.map_eq_nil_iff.mp hmap)) ?_
  intro t ht
  obtain ⟨e, he, rfl⟩ := List.mem_map.mp ht
  exact ⟨notMem_paramText (hplain e he).1 (hplain e he).2, by simp [paramText]⟩

theorem arrives_of_plain (hsemi : 59 ∉ c.option) (hne : c.option ≠ [] ∨ c.params.entries ≠ [])
    (hparams : ∀ e ∈ c.params.entries, Plain e.1 ∧ Plain e.2 ∧ e.2 ≠ []) : Arrives c := by
  have hplain : ∀ e ∈ c.params.entries, Plain e.1 ∧ Plain e.2 := fun e he =>
    ⟨(hparams e he).1, (hparams e he).2.1⟩
  refine ⟨⟨c.option, (c.params.entries.map paramText).foldl readParam ∅⟩, ?_, rfl, fun k => ?_⟩
  · rw [deSerialize, pieces_serialize hsemi hne hplain]
  · rw [lookup_foldl_readParam _ ∅ c.params.nodupKeys hplain, AList.lookup_empty, Option.or_none,
      List.filter_eq_self.mpr fun e he => by simpa using (hparams e he).2.2]
    rfl

/-- **When a command arrives**: its name has no semicolon, no key and no value has a semicolon or a
colon, no value is empty, and the text is not empty. -/
theorem command_arrives_iff : Arrives c ↔
    59 ∉ c.option ∧ (c.option ≠ [] ∨ c.params.entries ≠ []) ∧
      ∀ e ∈ c.params.entries, Plain e.1 ∧ Plain e.2 ∧ e.2 ≠ [] := by
  refine ⟨?_, fun h => arrives_of_plain h.1 h.2.1 h.2.2⟩
  rintro ⟨c', hread, hoption, hlookup⟩
  rw [deSerialize] at hread
  split at hread
  · cases hread
  · next option tokens hpieces =>
    cases hread
    have hnot : ∀ t ∈ option :: tokens, 59 ∉ t := fun t ht =>
      (pieces_spec _ t (hpieces ▸ ht)).1
    have hplain : ∀ e ∈ c.params.entries, Plain e.1 ∧ Plain e.2 := fun e he =>
      plain_of_lookup tokens ∅ (fun t ht => hnot t (List.mem_cons_of_mem _ ht))
        (fun k v hkv => by cases hkv)
        ((hlookup e.1).trans (List.mem_dlookup c.params.nodupKeys he))
    have hsemi : 59 ∉ c.option := hoption ▸ hnot option List.mem_cons_self
    have hne : c.option ≠ [] ∨ c.params.entries ≠ [] := by
      by_contra hempty
      rw [not_or, not_not, not_not] at hempty
      rw [serialize, hempty.1, hempty.2] at hpieces
      cases hpieces
    refine ⟨hsemi, hne, fun e he => ⟨(hplain e he).1, (hplain e he).2, fun hnil => ?_⟩⟩
    -- an empty value is not stored
    rw [pieces_serialize hsemi hne hplain, List.cons.injEq] at hpieces
    have hstored := hlookup e.1
    rw [← hpieces.2, lookup_foldl_readParam _ ∅ c.params.nodupKeys hplain, AList.lookup_empty,
      Option.or_none, AList.lookup, List.mem_dlookup c.params.nodupKeys he] at hstored
    simpa [hnil] using List.of_mem_dlookup hstored

/-! ## The daemon -/

def bytesOf (s : String) : Text := s.toList.map (·.toNat)

inductive Request where
  | setPolicy (dynamicAffinity : Bool)
  | getAffinityInfo (scope : Text)
  | reSchedVm (scope : Text)

/-- The part that `SetConfig`, `QueryCpuAffinityInfo` and `ReAssign` share: the parameter under
`key`, or the answer that it is missing. -/
def findParam (name key : String) (unknown : String) (data : Params) : Except Text Text :=
  if data.entries = [] then .error (bytesOf (name ++ " failed, params is empty."))
  else
    match data.lookup (bytesOf key) with
    | some value => .ok value
    | none => .error (bytesOf (name ++ " failed, " ++ unknown ++ " params."))

def dynamicPolicy : Text := bytesOf "dynamicAffinity"

def staticPolicy : Text := bytesOf "affinity"

def setConfig (data : Params) : Except Text Request := do
  let policy ← findParam "SetConfig" "sched-policy" "Unknown" data
  if policy = dynamicPolicy then .ok (.setPolicy true)
  else if policy = staticPolicy then .ok (.setPolicy false)
  else .error (bytesOf "Invalid params, please try with dynamicAffinity or affinity")

def queryCpuAffinityInfo (data : Params) : Except Text Request :=
  (findParam "QueryCpuAffinityInfo" "scope" "unknown" data).map .getAffinityInfo

def reAssign (data : Params) : Except Text Request :=
  (findParam "ReAssign" "scope" "unknown" data).map .reSchedVm

/-- The command to run, or the answer. -/
def socketMsgHandler (cmd : Text) : Except Text Request :=
  match deSerialize cmd with
  | none => .error (bytesOf "Failed to deserialize command.")
  | some cmdOpt =>
    if cmdOpt.option = bytesOf "setconfig" then setConfig cmdOpt.params
    else if cmdOpt.option = bytesOf "queryaffinity" then queryCpuAffinityInfo cmdOpt.params
    else if cmdOpt.option = bytesOf "optreassign" then reAssign cmdOpt.params
    else .error (bytesOf "Command option not found. cmd=" ++ cmdOpt.option)

/-- One `recv` into the buffer of the daemon. -/
def receiveMessage (sent : Text) : Text := sent.take 1023

/-- The name of the command for a request, and that of its parameter. -/
def Request.names : Request → String × String
  | .setPolicy _ => ("setconfig", "sched-policy")
  | .getAffinityInfo _ => ("queryaffinity", "scope")
  | .reSchedVm _ => ("optreassign", "scope")

/-- The parameter of a request. -/
def Request.value : Request → Text
  | .setPolicy dynamicAffinity => if dynamicAffinity then dynamicPolicy else staticPolicy
  | .getAffinityInfo scope => scope
  | .reSchedVm scope => scope

/-- What `vasctl` serializes for a request. -/
def commandOf (r : Request) : CmdOption :=
  ⟨bytesOf r.names.1, AList.singleton (bytesOf r.names.2) r.value⟩

theorem findParam_of_lookup {name key unknown : String} {data : Params} {value : Text}
    (h : data.lookup (bytesOf key) = some value) : findParam name key unknown data = .ok value := by
  have hne : data.entries ≠ [] := fun hnil => by
    rw [AList.lookup, hnil] at h
    cases h
  rw [findParam, if_neg hne, h]

/-- **The requests of `vasctl`** whose parameter is plain, not empty, and short enough for the
buffer, are run by the daemon as given. -/
theorem request_arrives {r : Request} (hplain : Plain r.value) (hne : r.value ≠ [])
    (hlength : (serialize (commandOf r)).length ≤ 1023) :
    socketMsgHandler (receiveMessage (serialize (commandOf r))) = .ok r := by
  have hnames : 59 ∉ bytesOf r.names.1 ∧ bytesOf r.names.1 ≠ [] ∧ Plain (bytesOf r.names.2) := by
    cases r <;> rw [Request.names] <;> exact ⟨by decide, by decide, by decide, by decide⟩
  obtain ⟨c', hread, hoption, hlookup⟩ : Arrives (commandOf r) := by
    refine arrives_of_plain hnames.1 (Or.inl hnames.2.1) fun e he => ?_
    rw [List.mem_singleton.mp he]
    exact ⟨hnames.2.2, hplain, hne⟩
  have hfind : ∀ name unknown, findParam name r.names.2 unknown c'.params = .ok r.value :=
    fun _ _ => findParam_of_lookup ((hlookup _).trans (List.dlookup_cons_eq _ _ _))
  rw [receiveMessage, List.take_of_length_le hlength, socketMsgHandler, hread]
  simp only [hoption, commandOf]
  cases r with
  | setPolicy b =>
    rw [Request.names] at hfind ⊢
    rw [if_pos rfl, setConfig, hfind]
    cases b <;> rfl
  | getAffinityInfo scope =>
    rw [Request.names] at hfind ⊢
    rw [if_neg (by decide), if_pos rfl, queryCpuAffinityInfo, hfind]
    rfl
  | reSchedVm scope =>
    rw [Request.names] at hfind ⊢
    rw [if_neg (by decide), if_neg (by decide), if_pos rfl, reAssign, hfind]
    rfl

/-- Reassigning all VMs. -/
theorem request_arrives_all :
    socketMsgHandler (receiveMessage (serialize (commandOf (.reSchedVm allVms)))) =
      .ok (.reSchedVm allVms) :=
  request_arrives ⟨by decide, by decide⟩ (by decide) (by decide)

end YellowZone.ClusterSched
