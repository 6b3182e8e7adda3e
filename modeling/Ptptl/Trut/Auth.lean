import Mathlib.Data.List.Basic

set_option autoImplicit false

/-! # The authentication exchange

`GetAuth` and `PutAuth` between the reading and the writing of headers, for any store and any
authenticator. -/

namespace Trut

/-- What `GetAuthValue` finds in a header, and whether it asks for a file of a group. -/
structure Fields (Name Chal Resp : Type) where
  secure : Bool := false
  identity : Option Name := none
  challenge : Option Chal := none
  response : Option Resp := none

/-- `m_store` and `m_auth`. -/
structure Auth (State Name Id Nonce Chal Resp : Type) where
  find : Name → Option Id
  challenge : State → Id → Nonce → State × Chal
  respond : Chal → Resp
  -- the context, which is the identity that was challenged
  verify : State → Resp → State × Option Id

/-- The outcomes of `PutAuth`: -1, or -1 with a challenge sent, or 0. -/
inductive PutAuth (Id Chal Resp : Type) where
  | refused
  | challenged (chal : Chal)
  | unsecured
  | accepted (id : Id) (resp : Resp)
deriving DecidableEq

section

variable {State Name Id Nonce Chal Resp : Type} (auth : Auth State Name Id Nonce Chal Resp)

def putAuth (state : State) (hdr : Fields Name Chal Resp) (nonce : Nonce) :
    State × PutAuth Id Chal Resp :=
  if !hdr.secure then (state, .unsecured)
  else
    match hdr.identity with
    | some rkey =>
      match auth.find rkey with
      | none => (state, .refused)
      | some rid =>
        let (state, chal) := auth.challenge state rid nonce
        (state, .challenged chal)
    | none =>
      match hdr.response, hdr.challenge with
      | some rresp, some rchal =>
        match auth.verify state rresp with
        | (state, none) => (state, .refused)
        | (state, some rid) => (state, .accepted rid (auth.respond rchal))
      | _, _ => (state, .refused)

/-- `GetAuth` after the first answer: the identity that it challenges, its challenge and its
response; `none` is -1. -/
def getAuth (state : State) (hdr : Fields Name Chal Resp) (nonce : Nonce) :
    State × Option (Id × Chal × Resp) :=
  match hdr.identity, hdr.challenge with
  | some rkey, some rchal =>
    match auth.find rkey with
    | none => (state, none)
    | some rid =>
      let (state, chal) := auth.challenge state rid nonce
      (state, some (rid, chal, auth.respond rchal))
  | _, _ => (state, none)

def getAuthEnd (state : State) (hdr : Fields Name Chal Resp) : State × Bool :=
  match hdr.response with
  | none => (state, false)
  | some rresp =>
    let (state, rid) := auth.verify state rresp
    (state, rid.isSome)

end

end Trut
