import YellowZone.Machine.StructFormat

/-!
# Messages of the server and of its Go clients

The server packs and unpacks messages with `VirtMsgPacker` and `VirtMsgUnPacker`, its Go clients
with `MsgPacker` and `MsgUnPacker`: a string is its length, four bytes in little-endian order,
followed by its bytes. Strings are byte strings on both sides. The code of a response is a
`uint32_t` in the server and an `int32` in the client.

## Short messages

The two sides differ in what they do when the bytes end too early. The Go reader returns an error.
The C++ reader sets the error flag of its stream, which nobody looks at: a read takes what is left,
later reads take nothing, and what was not read is zero (`InStream.read`). So a request whose
payload was cut off is dispatched with the payload filled up with zeros.

## Main results

* `Cpp.unpackRequest_packRequest`, `Go.unpackRequest_packRequest` — and the same for responses
* `Go.unpackResponse_take` — the client rejects every beginning of a response
* `cutRequest`, `Cpp.unpackRequest_take` — what the server reads of the beginning of a request
* `codecs_agree_iff` — all of it, with the exact condition under which a cut request is rejected
* `truncated_request_dispatched` — a handler runs with the last byte of its payload replaced
-/

namespace YellowZone.OvsServer

open Machine

/-- Byte strings: `std::string`, and `string` and `[]byte` in Go. -/
abbrev Bytes : Type := List UInt8

/-- `IpcRequest`, on both sides. -/
structure IpcRequest where
  service : Bytes
  method : Bytes
  payload : Bytes
  deriving DecidableEq, Repr

/-- `IpcResponse` of the server; the code is a `uint32_t`. -/
structure IpcResponse where
  code : ℕ
  payload : Bytes
  deriving DecidableEq, Repr

/-- `IpcResponse` of the client; the code is an `int32`. -/
structure GoIpcResponse where
  code : ℤ
  payload : Bytes
  deriving DecidableEq, Repr

/-- Every string is shorter than 2^32 bytes. -/
def IpcRequest.Fits (r : IpcRequest) : Prop :=
  r.service.length < 2 ^ 32 ∧ r.method.length < 2 ^ 32 ∧ r.payload.length < 2 ^ 32

instance (r : IpcRequest) : Decidable r.Fits :=
  inferInstanceAs (Decidable (_ ∧ _ ∧ _))

/-- The code is below 2^31, and the payload shorter than 2^32 bytes. -/
def IpcResponse.Fits (r : IpcResponse) : Prop := r.code < 2 ^ 31 ∧ r.payload.length < 2 ^ 32

instance (r : IpcResponse) : Decidable r.Fits := inferInstanceAs (Decidable (_ ∧ _))

/-- The same response in the client. -/
def IpcResponse.toGo (r : IpcResponse) : GoIpcResponse := ⟨r.code, r.payload⟩

/-! ## The server -/

namespace Cpp

/-- `VirtMsgPacker::Serialize` of a string: the size is a `uint32_t`. -/
def packString (s : Bytes) : Bytes := leBytes 4 (s.length % 2 ^ 32) ++ s.take (s.length % 2 ^ 32)

/-- `IpcRequest::Serialize`. -/
def packRequest (r : IpcRequest) : Bytes :=
  packString r.service ++ (packString r.method ++ packString r.payload)

/-- `IpcResponse::Serialize`. -/
def packResponse (r : IpcResponse) : Bytes := leBytes 4 r.code ++ packString r.payload

/-- `std::istringstream`: what is left, and whether no read has failed. -/
structure InStream where
  rest : Bytes
  good : Bool := true
  deriving DecidableEq, Repr

/-- `inStream_.read`: a read that finds too little takes it all and fails, and so do all later
ones. -/
def InStream.read (n : ℕ) (st : InStream) : Bytes × InStream :=
  if st.good then
    if n ≤ st.rest.length then (st.rest.take n, ⟨st.rest.drop n, true⟩)
    else (st.rest, ⟨[], false⟩)
  else ([], st)

/-- Overwrite the beginning of some bytes. -/
def overlay (init d : Bytes) : Bytes := d ++ init.drop d.length

/-- `VirtMsgUnPacker::Deserialize` of a string. -/
def unpackString (st : InStream) : Bytes × InStream :=
  let (word, st) := st.read 4
  let size := readLE (overlay (leBytes 4 0) word)
  let (d, st) := st.read size
  (overlay (List.replicate size 0) d, st)

/-- `IpcRequest::Deserialize`. -/
def unpackRequest (bs : Bytes) : IpcRequest :=
  let (service, st) := unpackString { rest := bs }
  let (method, st) := unpackString st
  let (payload, _) := unpackString st
  ⟨service, method, payload⟩

/-- `IpcResponse::Deserialize`, into a response with a given code. -/
def unpackResponse (code : ℕ) (bs : Bytes) : IpcResponse :=
  let (word, st) := InStream.read 4 { rest := bs }
  ⟨readLE (overlay (leBytes 4 code) word), (unpackString st).1⟩

end Cpp

/-! ## The client -/

namespace Go

/-- `SerializeString` and `SerializeBytes`. -/
def packString (s : Bytes) : Bytes := leBytes 4 (s.length % 2 ^ 32) ++ s

/-- `IpcRequest.Serialize`. -/
def packRequest (r : IpcRequest) : Bytes :=
  packString r.service ++ (packString r.method ++ packString r.payload)

/-- `IpcResponse.Serialize`. -/
def packResponse (r : GoIpcResponse) : Bytes :=
  leBytes 4 (r.code % 2 ^ 32).toNat ++ packString r.payload

/-- `io.ReadFull`, and `binary.Read` of so many bytes: an error if there are fewer. -/
def readFull (n : ℕ) (bs : Bytes) : Option (Bytes × Bytes) :=
  if n ≤ bs.length then some (bs.take n, bs.drop n) else none

/-- `DeserializeString` and `DeserializeBytes`. -/
def unpackString (bs : Bytes) : Option (Bytes × Bytes) := do
  let (word, bs) ← readFull 4 bs
  readFull (readLE word) bs

/-- `IpcRequest.Deserialize`. -/
def unpackRequest (bs : Bytes) : Option IpcRequest := do
  let (service, bs) ← unpackString bs
  let (method, bs) ← unpackString bs
  let (payload, _) ← unpackString bs
  return ⟨service, method, payload⟩

/-- `IpcResponse.Deserialize`. -/
def unpackResponse (bs : Bytes) : Option GoIpcResponse := do
  let (word, bs) ← readFull 4 bs
  let (payload, _) ← unpackString bs
  return ⟨signed32 (readLE word), payload⟩

end Go

/-! ## What the server does with a request -/

/-- `VirtIPCCode`. -/
inductive VirtIPCCode where
  | ok
  | serviceNotFound
  | methodNotFound
  | deserializeError
  | internalError
  | invalidParam
  | alreadyExist
  | notExist
  | ubseError
  | permissionDenied
  deriving DecidableEq, Repr

/-- The number of a code. -/
def VirtIPCCode.toNat : VirtIPCCode → ℕ
  | ok => 0
  | serviceNotFound => 1001
  | methodNotFound => 1002
  | deserializeError => 1003
  | internalError => 1004
  | invalidParam => 1005
  | alreadyExist => 1006
  | notExist => 1007
  | ubseError => 1008
  | permissionDenied => 1009

/-- A handler, from a payload to a response; it may throw. -/
abbrev Handler : Type := Bytes → Option IpcResponse

/-- `ServiceRegistry`: services by name, and in each of them handlers by method. -/
abbrev Registry : Type := Bytes → Option (Bytes → Option Handler)

/-- `trimSpace`. -/
def trimSpace (s : Bytes) : Bytes := (s.dropWhile (· == 32)).rdropWhile (· == 32)

/-- The items that `std::getline` finds between commas: there is none after the last comma. -/
def authorityItems (authority : Bytes) : List Bytes :=
  let items := authority.splitOn 44
  if items.getLast? = some [] then items.dropLast else items

/-- `AuthorizeService`. -/
def authorizeService (authority service : Bytes) : Bool :=
  (authorityItems authority).any fun item => trimSpace item == trimSpace service

/-- What becomes of a request: the response, and the handler's payload if a handler was run. -/
structure Handling where
  response : IpcResponse
  dispatched : Option Bytes
  deriving DecidableEq, Repr

/-- A response without a payload. -/
def Handling.ofCode (code : VirtIPCCode) : Handling := ⟨⟨code.toNat, []⟩, none⟩

/-- `Dispatcher::Dispatch` and `Service::Handle`, with the exceptions that `HandleBusiness`
catches. -/
def dispatch (services : Registry) (r : IpcRequest) : Handling :=
  match services r.service with
  | none => .ofCode .serviceNotFound
  | some service =>
    match service r.method with
    | none => .ofCode .methodNotFound
    | some handler =>
      ⟨(handler r.payload).getD ⟨VirtIPCCode.internalError.toNat, []⟩, some r.payload⟩

/-- `HandleBusiness`, with the authority of the user if there is one. -/
def handleBusiness (authority : Option Bytes) (services : Registry) (req : Bytes) : Handling :=
  match authority with
  | none => .ofCode .permissionDenied
  | some authority =>
    let r := Cpp.unpackRequest req
    if authorizeService authority r.service then dispatch services r
    else .ofCode .permissionDenied

/-! ## Whole messages -/

section Whole

variable {s rest : Bytes}

theorem packString_eq (h : s.length < 2 ^ 32) : Cpp.packString s = Go.packString s := by
  rw [Cpp.packString, Go.packString, Nat.mod_eq_of_lt h, List.take_length]

theorem packRequest_eq {r : IpcRequest} (h : r.Fits) : Cpp.packRequest r = Go.packRequest r := by
  rw [Cpp.packRequest, Go.packRequest, packString_eq h.1, packString_eq h.2.1, packString_eq h.2.2]

theorem packResponse_eq {r : IpcResponse} (h : r.Fits) :
    Cpp.packResponse r = Go.packResponse r.toGo := by
  have hcode : ((r.code : ℤ) % 2 ^ 32).toNat = r.code := by
    have := h.1
    omega
  rw [Cpp.packResponse, Go.packResponse, packString_eq h.2, IpcResponse.toGo, hcode]

theorem length_packString (s : Bytes) : (Go.packString s).length = 4 + s.length := by
  rw [Go.packString, List.length_append, length_leBytes]

namespace Cpp

theorem InStream.read_append {d : Bytes} {n : ℕ} (h : d.length = n) :
    InStream.read n { rest := d ++ rest } = (d, { rest }) := by
  subst h
  simp [InStream.read]

theorem overlay_eq {init d : Bytes} (h : init.length ≤ d.length) : overlay init d = d := by
  rw [overlay, List.drop_eq_nil_of_le h, List.append_nil]

theorem overlay_word (n : ℕ) : overlay (leBytes 4 0) (leBytes 4 n) = leBytes 4 n :=
  overlay_eq (by simp)

theorem unpackString_packString (h : s.length < 2 ^ 32) :
    unpackString { rest := Go.packString s ++ rest } = (s, { rest }) := by
  have hsize : readLE (leBytes 4 (s.length % 2 ^ 32)) = s.length := by
    rw [readLE_leBytes 4 _ (by omega), Nat.mod_eq_of_lt h]
  rw [unpackString, Go.packString, List.append_assoc, InStream.read_append (length_leBytes 4 _)]
  dsimp only
  rw [overlay_word, hsize, InStream.read_append rfl]
  dsimp only
  rw [overlay_eq (by simp)]

/-- **The server reads what a client has packed.** -/
theorem unpackRequest_packRequest {r : IpcRequest} (h : r.Fits) :
    unpackRequest (Go.packRequest r) = r := by
  rw [unpackRequest, Go.packRequest, unpackString_packString h.1]
  dsimp only
  rw [unpackString_packString h.2.1]
  dsimp only
  rw [← List.append_nil (Go.packString r.payload), unpackString_packString h.2.2]

/-- And so it does with responses. -/
theorem unpackResponse_packResponse {r : IpcResponse} (h : r.Fits) (code : ℕ) :
    unpackResponse code (Go.packResponse r.toGo) = r := by
  have hcode : readLE (leBytes 4 r.code) = r.code := readLE_leBytes 4 _ (by have := h.1; omega)
  rw [← packResponse_eq h, packResponse, packString_eq h.2, unpackResponse,
    InStream.read_append (length_leBytes 4 _)]
  dsimp only
  rw [overlay_eq (by simp), hcode, ← List.append_nil (Go.packString r.payload),
    unpackString_packString h.2]

end Cpp

namespace Go

theorem readFull_append {d : Bytes} {n : ℕ} (h : d.length = n) :
    readFull n (d ++ rest) = some (d, rest) := by
  subst h
  simp [readFull]

theorem unpackString_packString (h : s.length < 2 ^ 32) :
    unpackString (packString s ++ rest) = some (s, rest) := by
  have hsize : readLE (leBytes 4 (s.length % 2 ^ 32)) = s.length := by
    rw [readLE_leBytes 4 _ (by omega), Nat.mod_eq_of_lt h]
  rw [unpackString, packString, List.append_assoc, readFull_append (length_leBytes 4 _)]
  simp only [Option.bind_eq_bind, Option.bind_some, hsize]
  exact readFull_append rfl

/-- **A client reads what the server has packed.** -/
theorem unpackRequest_packRequest {r : IpcRequest} (h : r.Fits) :
    unpackRequest (Cpp.packRequest r) = some r := by
  rw [packRequest_eq h, unpackRequest, packRequest, unpackString_packString h.1]
  simp only [Option.bind_eq_bind, Option.bind_some]
  rw [unpackString_packString h.2.1]
  simp only [Option.bind_some]
  rw [← List.append_nil (packString r.payload), unpackString_packString h.2.2]
  rfl

/-- And so it does with responses. -/
theorem unpackResponse_packResponse {r : IpcResponse} (h : r.Fits) :
    unpackResponse (Cpp.packResponse r) = some r.toGo := by
  have hcode : signed32 (readLE (leBytes 4 r.code)) = r.code := by
    have := h.1
    rw [readLE_leBytes 4 _ (by omega), signed32, if_pos h.1]
  rw [Cpp.packResponse, packString_eq h.2, unpackResponse, readFull_append (length_leBytes 4 _)]
  simp only [Option.bind_eq_bind, Option.bind_some]
  rw [← List.append_nil (packString r.payload), unpackString_packString h.2]
  simp only [Option.bind_some, hcode]
  rfl

end Go

end Whole

/-! ## Messages that end too early -/

section Short

variable {s : Bytes} {k : ℕ}

theorem take_packString (h : 4 ≤ k) :
    (Go.packString s).take k = leBytes 4 (s.length % 2 ^ 32) ++ s.take (k - 4) := by
  rw [Go.packString, List.take_append, length_leBytes, List.take_of_length_le (by simpa)]

namespace Go

theorem readFull_eq_none {bs : Bytes} {n : ℕ} (h : bs.length < n) : readFull n bs = none :=
  if_neg (by omega)

/-- The beginning of a string is an error. -/
theorem unpackString_take (h : s.length < 2 ^ 32) (hk : k < (packString s).length) :
    unpackString ((packString s).take k) = none := by
  rw [length_packString] at hk
  by_cases hshort : k < 4
  · rw [unpackString, readFull_eq_none]
    · rfl
    · rw [List.length_take]
      omega
  · rw [take_packString (by omega), unpackString, readFull_append (length_leBytes 4 _)]
    simp only [Option.bind_eq_bind, Option.bind_some]
    rw [readLE_leBytes 4 _ (by omega), Nat.mod_eq_of_lt h, readFull_eq_none]
    rw [List.length_take]
    omega

/-- **A client rejects every beginning of a response.** -/
theorem unpackResponse_take {r : IpcResponse} (h : r.Fits)
    (hk : k < (Cpp.packResponse r).length) :
    unpackResponse ((Cpp.packResponse r).take k) = none := by
  rw [Cpp.packResponse, packString_eq h.2, List.length_append, length_leBytes] at hk
  rw [Cpp.packResponse, packString_eq h.2]
  by_cases hshort : k < 4
  · rw [unpackResponse, readFull_eq_none]
    · rfl
    · rw [List.length_take]
      omega
  · have htake : (leBytes 4 r.code ++ packString r.payload).take k =
        leBytes 4 r.code ++ (packString r.payload).take (k - 4) := by
      rw [List.take_append, length_leBytes, List.take_of_length_le (by simp; omega)]
    rw [htake, unpackResponse, readFull_append (length_leBytes 4 _)]
    simp only [Option.bind_eq_bind, Option.bind_some]
    rw [unpackString_take h.2 (by omega)]
    rfl

end Go

/-- What the server reads of a string whose packed form ends after `k` bytes. If the cut is in the
length, the low bytes of the length count, and all bytes are zero; otherwise those behind the cut
are. -/
def cutString (s : Bytes) (k : ℕ) : Bytes :=
  if k < 4 then List.replicate (s.length % 256 ^ k) 0
  else s.take (k - 4) ++ List.replicate (s.length - (k - 4)) 0

/-- What the server reads of a request that ends after `k` bytes. -/
def cutRequest (r : IpcRequest) (k : ℕ) : IpcRequest where
  service := cutString r.service k
  method := cutString r.method (k - (4 + r.service.length))
  payload := cutString r.payload (k - (8 + r.service.length + r.method.length))

theorem cutString_zero (s : Bytes) : cutString s 0 = [] := by
  rw [cutString, if_pos (by decide), Nat.pow_zero, Nat.mod_one, List.replicate_zero]

theorem cutString_of_le (h : 4 + s.length ≤ k) : cutString s k = s := by
  rw [cutString, if_neg (by omega), List.take_of_length_le (by omega),
    Nat.sub_eq_zero_of_le (by omega), List.replicate_zero, List.append_nil]

namespace Cpp

theorem InStream.read_short {d : Bytes} {n : ℕ} (h : d.length < n) :
    InStream.read n { rest := d } = (d, ⟨[], false⟩) := by
  simp [InStream.read, Nat.not_le.mpr h]

theorem unpackString_failed : unpackString ⟨[], false⟩ = ([], ⟨[], false⟩) := by decide

/-- The length, from what is left of its bytes. -/
theorem readLE_overlay_take (hk : k ≤ 4) (n : ℕ) :
    readLE (overlay (leBytes 4 0) ((leBytes 4 n).take k)) = n % 256 ^ k := by
  have hzeros : leBytes 4 0 = List.replicate 4 0 := by decide
  rw [take_leBytes hk, overlay, hzeros, List.drop_replicate, readLE_append_zeros,
    readLE_leBytes_mod]

/-- **A string that ends too early**, or is followed by others. -/
theorem unpackString_take (h : s.length < 2 ^ 32) (rest : Bytes) :
    unpackString { rest := (Go.packString s ++ rest).take k } = (cutString s k,
      if 4 + s.length ≤ k then { rest := rest.take (k - (4 + s.length)) } else ⟨[], false⟩) := by
  by_cases hall : 4 + s.length ≤ k
  · rw [List.take_append, List.take_of_length_le (by rw [length_packString]; exact hall),
      length_packString, unpackString_packString h, cutString_of_le hall, if_pos hall]
  · have hcut : (Go.packString s ++ rest).take k = (Go.packString s).take k :=
      List.take_append_of_le_length (by rw [length_packString]; omega)
    rw [hcut, if_neg hall, cutString]
    split
    · next hshort =>
      -- the length itself is cut
      have hword : (Go.packString s).take k = (leBytes 4 (s.length % 2 ^ 32)).take k :=
        List.take_append_of_le_length (by rw [length_leBytes]; omega)
      rw [hword, unpackString, InStream.read_short (by simp; omega)]
      dsimp only
      rw [readLE_overlay_take (by omega), Nat.mod_eq_of_lt h]
      rfl
    · rw [take_packString (by omega), unpackString, InStream.read_append (length_leBytes 4 _)]
      dsimp only
      rw [overlay_word, readLE_leBytes 4 _ (by omega), Nat.mod_eq_of_lt h,
        InStream.read_short (by simp; omega)]
      dsimp only
      rw [overlay, List.drop_replicate, List.length_take, Nat.min_eq_left (by omega)]

/-- **A request that ends too early.** -/
theorem unpackRequest_take {r : IpcRequest} (h : r.Fits) (k : ℕ) :
    unpackRequest ((Go.packRequest r).take k) = cutRequest r k := by
  rw [unpackRequest, Go.packRequest, unpackString_take h.1, cutRequest]
  dsimp only
  split
  · rw [unpackString_take h.2.1]
    dsimp only
    split
    · rw [← List.append_nil (Go.packString r.payload), unpackString_take h.2.2]
      dsimp only
      congr 2
      omega
    · rw [unpackString_failed, Nat.sub_eq_zero_of_le (by omega : k ≤ 8 + _ + _), cutString_zero]
  · rw [unpackString_failed]
    dsimp only
    rw [unpackString_failed, Nat.sub_eq_zero_of_le (by omega : k ≤ 4 + _),
      Nat.sub_eq_zero_of_le (by omega : k ≤ 8 + _ + _), cutString_zero, cutString_zero]

end Cpp

/-- There is a handler for the names of a request. -/
def Registry.HasHandler (services : Registry) (r : IpcRequest) : Prop :=
  ∃ service handler, services r.service = some service ∧ service r.method = some handler

/-- The caller may use every service that there is. -/
def AuthorizedForAll (authority : Bytes) (services : Registry) : Prop :=
  ∀ name, (services name).isSome → authorizeService authority name = true

/-- A request is answered with an error, and no handler is run for it. -/
def Handling.Rejected (h : Handling) : Prop :=
  h.dispatched = none ∧ h.response.code ≠ VirtIPCCode.ok.toNat

theorem rejected_ofCode {code : VirtIPCCode} (h : code ≠ .ok) :
    (Handling.ofCode code).Rejected := by
  refine ⟨rfl, ?_⟩
  cases code with
  | ok => exact absurd rfl h
  | _ => decide

/-- **What is rejected.** A request is answered with an error and without running a handler
exactly if there is no handler for the names that the unpacker found. -/
theorem rejected_handleBusiness_iff {authority : Bytes} {services : Registry}
    (hauth : AuthorizedForAll authority services) (req : Bytes) :
    (handleBusiness (some authority) services req).Rejected ↔
      ¬services.HasHandler (Cpp.unpackRequest req) := by
  rw [handleBusiness]
  generalize Cpp.unpackRequest req = r
  cases hservice : services r.service with
  | none =>
    have hno : ¬services.HasHandler r := by
      rintro ⟨service, handler, hs, -⟩
      rw [hservice] at hs
      cases hs
    refine iff_of_true ?_ hno
    simp only [dispatch, hservice]
    split
    · exact rejected_ofCode nofun
    · exact rejected_ofCode nofun
  | some service =>
    simp only [hauth _ (Option.isSome_of_eq_some hservice), if_true, dispatch, hservice]
    cases hmethod : service r.method with
    | none =>
      have hno : ¬services.HasHandler r := by
        rintro ⟨service', handler, hs, hm⟩
        rw [hservice] at hs
        cases hs
        rw [hmethod] at hm
        cases hm
      exact iff_of_true (rejected_ofCode nofun) hno
    | some handler =>
      have hyes : services.HasHandler r := ⟨service, handler, hservice, hmethod⟩
      exact iff_of_false (fun h => nomatch h.1) (not_not_intro hyes)

end Short

/-- **The two codecs.** Each side reads what the other has packed, and a client rejects every
beginning of a response. The server rejects the beginning of a request exactly if there is no
handler for the names in `cutRequest`; the names are whole when the cut is in the payload. -/
theorem codecs_agree_iff {authority : Bytes} {services : Registry}
    (hauth : AuthorizedForAll authority services) {req : IpcRequest} (hreq : req.Fits)
    {resp : IpcResponse} (hresp : resp.Fits) :
    Cpp.unpackRequest (Go.packRequest req) = req ∧
      Go.unpackRequest (Cpp.packRequest req) = some req ∧
      Go.unpackResponse (Cpp.packResponse resp) = some resp.toGo ∧
      (∀ code, Cpp.unpackResponse code (Go.packResponse resp.toGo) = resp) ∧
      (∀ k < (Cpp.packResponse resp).length,
        Go.unpackResponse ((Cpp.packResponse resp).take k) = none) ∧
      ∀ k < (Go.packRequest req).length,
        ((handleBusiness (some authority) services ((Go.packRequest req).take k)).Rejected ↔
          ¬services.HasHandler (cutRequest req k)) ∧
        (8 + req.service.length + req.method.length ≤ k →
          (cutRequest req k).service = req.service ∧ (cutRequest req k).method = req.method) := by
  refine ⟨Cpp.unpackRequest_packRequest hreq, Go.unpackRequest_packRequest hreq,
    Go.unpackResponse_packResponse hresp, Cpp.unpackResponse_packResponse hresp,
    fun _ => Go.unpackResponse_take hresp, fun k _ => ⟨?_, fun hk => ⟨?_, ?_⟩⟩⟩
  · rw [← Cpp.unpackRequest_take hreq k]
    exact rejected_handleBusiness_iff hauth _
  · exact cutString_of_le (by omega)
  · exact cutString_of_le (by omega)

/-- One service `a` with one method `b`, which answers with its payload. -/
def echo : Registry := fun name =>
  if name = [97] then some fun method => if method = [98] then some fun p => some ⟨0, p⟩ else none
  else none

theorem authorizedForAll_echo : AuthorizedForAll [97] echo := by
  intro name hname
  have : name = [97] := by
    by_contra hne
    simp [echo, hne] at hname
  rw [this]
  decide

/-- A request of the echo service that is cut behind the length of its method: there is no method
with the name that is made up for it. -/
theorem codecs_agree_echo :
    (handleBusiness (some [97]) echo ((Go.packRequest ⟨[97], [98], [1, 2]⟩).take 9)).Rejected := by
  have hreq : IpcRequest.Fits ⟨[97], [98], [1, 2]⟩ := by decide
  have hresp : IpcResponse.Fits ⟨0, [1, 2]⟩ := by decide
  have hcut := ((codecs_agree_iff authorizedForAll_echo hreq hresp).2.2.2.2.2 9 (by decide)).1
  have hnames : cutRequest ⟨[97], [98], [1, 2]⟩ 9 = ⟨[97], [0], []⟩ := by decide
  refine hcut.mpr ?_
  rw [hnames]
  rintro ⟨service, handler, hservice, hmethod⟩
  cases hservice
  cases hmethod

/-- The same request without its last byte: the handler runs, with a zero in its place, and the
answer is a success. -/
theorem truncated_request_dispatched :
    AuthorizedForAll [97] echo ∧
      handleBusiness (some [97]) echo ((Go.packRequest ⟨[97], [98], [1, 2]⟩).take 15) =
        ⟨⟨VirtIPCCode.ok.toNat, [1, 0]⟩, some [1, 0]⟩ ∧
      (Go.packRequest ⟨[97], [98], [1, 2]⟩).length = 16 :=
  ⟨authorizedForAll_echo, by decide, by decide⟩

end YellowZone.OvsServer
