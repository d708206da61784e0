import DurableBus.Message
import DurableBus.Time

/-!
# Message stores

A store keeps the messages of each topic in the order of their offsets and remembers, for each consumer group, which of
them are claimed, acknowledged or waiting to be delivered again. This file holds what a store is asked (`Request`) and
what it answers; whatever works on a store works with any that answers these requests.
-/

set_option autoImplicit false

namespace DurableBus

/-- Microseconds since 1970. -/
abbrev Timestamp := Int

/-- Identifies a claim, so that it can be settled. It is honoured while its token is the latest one for the message and
the group. -/
structure Receipt where
  offset : Int
  group : String
  token : Uuid
deriving DecidableEq, Repr

/-- A message claimed for a group. -/
structure Claimed where
  receipt : Receipt
  message : Message
  publishedAt : Timestamp
  /-- How many times the group has claimed the message, this claim included. -/
  deliveryCount : Nat
deriving DecidableEq, Repr

/-- What to claim: at most `limit` messages behind an offset. -/
structure ClaimRequest where
  topic : String
  group : String
  after : Int
  limit : Nat
  lease : Duration
deriving DecidableEq, Repr

namespace Store

/-- What a store can be asked to do. -/
inductive Request
  | setUp
  | ping
  | close
  | enqueue (topic : String) (messages : List Message)
  /-- Adds messages to an open transaction. -/
  | stage (topic : String) (messages : List Message)
  | head (topic : String)
  | claim (request : ClaimRequest)
  | ack (receipt : Receipt)
  | nack (receipt : Receipt) (redeliverAfter : Duration)
  | renew (receipt : Receipt) (lease : Duration)
  | forgetGroup (topic group : String)
deriving DecidableEq, Repr

/-- The kinds of requests. -/
inductive Operation
  | setUp
  | ping
  | close
  | enqueue
  | stage
  | head
  | claim
  | ack
  | nack
  | renew
  | forgetGroup
deriving DecidableEq, Repr

def Request.operation : Request → Operation
  | .setUp => .setUp
  | .ping => .ping
  | .close => .close
  | .enqueue .. => .enqueue
  | .stage .. => .stage
  | .head .. => .head
  | .claim .. => .claim
  | .ack .. => .ack
  | .nack .. => .nack
  | .renew .. => .renew
  | .forgetGroup .. => .forgetGroup

/-- The name of a kind of request, as callers know it. -/
def Operation.name : Operation → String
  | .setUp => "initialize"
  | .ping => "ping"
  | .close => "close"
  | .enqueue => "enqueue"
  | .stage => "enqueue_in_tx"
  | .head => "head"
  | .claim => "claim"
  | .ack => "ack"
  | .nack => "nack"
  | .renew => "renew"
  | .forgetGroup => "forget_group"

/-- What a store says when a request succeeds. -/
inductive Answer
  | done
  | offset (offset : Int)
  | claimed (messages : List Claimed)
  /-- Whether a claim was still held when its lease was to be renewed. -/
  | held (still : Bool)
deriving DecidableEq, Repr

/-- Why a request fails. -/
inductive Error
  /-- The store has been closed. -/
  | closed
  /-- The request was rejected before it reached the store. -/
  | rejected (operation : Operation)
deriving DecidableEq, Repr

def Error.message : Error → String
  | .closed => "In-memory store is closed"
  | .rejected operation => operation.name ++ " rejected"

/-- How a request ends. -/
abbrev Reply := Except Error Answer

/-- What is worth a line in the log beside the answers. -/
inductive Notice
  /-- A claim was acknowledged that is no longer held. -/
  | lostBeforeAck (receipt : Receipt)
  /-- A claim was given back that is no longer held. -/
  | lostBeforeNack (receipt : Receipt)
  /-- A claim was lost while it waited to be handed out. -/
  | lostWhileQueued (receipt : Receipt)
  /-- A claim that will not be handed out could not be given back. -/
  | notReleased (receipt : Receipt) (error : Error)
  /-- The state of a group that is no longer needed could not be dropped. -/
  | notForgotten (topic group : String) (error : Error)
deriving DecidableEq, Repr

end Store

end DurableBus
