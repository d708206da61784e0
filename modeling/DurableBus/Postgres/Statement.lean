import DurableBus.Json.Value
import DurableBus.Text.Utf8
import DurableBus.Time
import DurableBus.Uuid

/-!
# Statements

The SQL that the relational store speaks, each statement on one line, and the parameters that go with it. Messages are
rows of `letterbox_messages`; what a group knows about a message is a row of `letterbox_deliveries`; the watermark of a
group on a topic is a row of `letterbox_offsets`.
-/

set_option autoImplicit false

namespace DurableBus.Postgres

/-- A value bound to a statement. -/
inductive Parameter
  | int8 (i : Int)
  | text (s : String)
  | uuid (u : Uuid)
  | bytes (b : Bytes)
  | json (v : Json.Value)
  /-- A span of time, sent as a number of seconds in double precision. -/
  | seconds (d : Duration)

/-- The bits of a span in seconds: the seconds and the fraction are rounded apart, then added. -/
def secondsBits (d : Duration) : UInt64 :=
  ((UInt64.ofNat d.secs).toFloat + (UInt64.ofNat d.nanos).toFloat / 1e9).toBits

/-- A statement and its parameters. -/
structure Statement where
  sql : String
  parameters : List Parameter := []

def clauses (cs : List String) : String := " ".intercalate cs

/-! ## Schema -/

namespace Statement

/-- The key of the lock under which the schema is set up. -/
def schemaLockKey : Int := 0x6c65_7474_6572_626f

/-- Waits until nobody else sets up the schema. -/
def lockSchema : Statement := ⟨"SELECT pg_advisory_xact_lock($1)", [.int8 schemaLockKey]⟩

def createMessages : Statement where
  sql := clauses [
    "CREATE TABLE IF NOT EXISTS letterbox_messages (",
    "offset_id BIGSERIAL PRIMARY KEY, uuid UUID NOT NULL, topic TEXT NOT NULL, payload BYTEA NOT NULL,",
    "metadata JSONB NOT NULL DEFAULT '\x7b\x7d', tx_id XID8 NOT NULL DEFAULT pg_current_xact_id(),",
    "created_at TIMESTAMPTZ NOT NULL DEFAULT now() )"]

def createOffsetIndex : Statement where
  sql := clauses [
    "CREATE INDEX IF NOT EXISTS letterbox_messages_topic_offset_idx",
    "ON letterbox_messages (topic, offset_id)"]

def createTransactionIndex : Statement where
  sql := clauses [
    "CREATE INDEX IF NOT EXISTS letterbox_messages_topic_tx_offset_idx",
    "ON letterbox_messages (topic, tx_id, offset_id)"]

def createOffsets : Statement where
  sql := clauses [
    "CREATE TABLE IF NOT EXISTS letterbox_offsets (",
    "topic TEXT NOT NULL, consumer_group TEXT NOT NULL, acked_tx XID8 NOT NULL, acked_offset BIGINT NOT NULL,",
    "PRIMARY KEY (topic, consumer_group) )"]

def createDeliveries : Statement where
  sql := clauses [
    "CREATE TABLE IF NOT EXISTS letterbox_deliveries (",
    "offset_id BIGINT NOT NULL REFERENCES letterbox_messages (offset_id) ON DELETE CASCADE,",
    "consumer_group TEXT NOT NULL, state TEXT NOT NULL, claim_token UUID NOT NULL,",
    "visible_at TIMESTAMPTZ NOT NULL, attempts INT NOT NULL DEFAULT 1, acked_at TIMESTAMPTZ,",
    "PRIMARY KEY (offset_id, consumer_group) )"]

def schema : List Statement :=
  [lockSchema, createMessages, createOffsetIndex, createTransactionIndex, createOffsets, createDeliveries]

/-! ## Messages -/

def insertMessage (topic : String) (id : Uuid) (payload : Bytes) (metadata : Json.Value) : Statement where
  sql := "INSERT INTO letterbox_messages (uuid, topic, payload, metadata) VALUES ($1, $2, $3, $4)"
  parameters := [.uuid id, .text topic, .bytes payload, .json metadata]

def head (topic : String) : Statement where
  sql := "SELECT COALESCE(MAX(offset_id), 0) FROM letterbox_messages WHERE topic = $1"
  parameters := [.text topic]

/-! ## Deliveries -/

/-- The watermark of a group on a topic. -/
def mark : String :=
  clauses [
    "WITH mark AS ( SELECT",
    "COALESCE((SELECT acked_tx FROM letterbox_offsets WHERE topic = $1 AND consumer_group = $2), '0'::xid8) AS tx,",
    "COALESCE((SELECT acked_offset FROM letterbox_offsets WHERE topic = $1 AND consumer_group = $2), 0) AS off ),"]

def claim (topic group : String) (after limit : Int) (token : Uuid) (lease : Duration) : Statement where
  sql := clauses [
    mark,
    "candidates AS ( SELECT m.offset_id FROM letterbox_messages m CROSS JOIN mark",
    "LEFT JOIN letterbox_deliveries d ON d.offset_id = m.offset_id AND d.consumer_group = $2",
    "WHERE m.topic = $1 AND m.offset_id > $3 AND (m.tx_id, m.offset_id) > (mark.tx, mark.off)",
    "AND (d.offset_id IS NULL OR (d.state <> 'acked' AND d.visible_at <= now()))",
    "ORDER BY m.offset_id LIMIT $4 FOR UPDATE OF m SKIP LOCKED ),",
    "claimed AS ( INSERT INTO letterbox_deliveries",
    "(offset_id, consumer_group, state, claim_token, visible_at, attempts)",
    "SELECT offset_id, $2, 'claimed', $5, now() + make_interval(secs => $6), 1 FROM candidates",
    "ON CONFLICT (offset_id, consumer_group) DO UPDATE",
    "SET state = 'claimed', claim_token = EXCLUDED.claim_token, visible_at = EXCLUDED.visible_at,",
    "attempts = letterbox_deliveries.attempts + 1",
    "WHERE letterbox_deliveries.state <> 'acked' AND letterbox_deliveries.visible_at <= now()",
    "RETURNING offset_id, attempts )",
    "SELECT m.offset_id, m.uuid, m.payload, m.metadata, m.created_at, c.attempts",
    "FROM claimed c JOIN letterbox_messages m ON m.offset_id = c.offset_id ORDER BY m.offset_id"]
  parameters := [.text topic, .text group, .int8 after, .int8 limit, .uuid token, .seconds lease]

/-- Makes a claim final. -/
def ack (offset : Int) (group : String) (token : Uuid) : Statement where
  sql := clauses [
    "UPDATE letterbox_deliveries d SET state = 'acked', acked_at = now() FROM letterbox_messages m",
    "WHERE d.offset_id = $1 AND d.consumer_group = $2 AND d.claim_token = $3",
    "AND d.state = 'claimed' AND m.offset_id = d.offset_id RETURNING m.topic"]
  parameters := [.int8 offset, .text group, .uuid token]

/-- Gives a claim back. -/
def nack (offset : Int) (group : String) (token : Uuid) (redeliverAfter : Duration) : Statement where
  sql := clauses [
    "UPDATE letterbox_deliveries SET state = 'nacked', visible_at = now() + make_interval(secs => $4)",
    "WHERE offset_id = $1 AND consumer_group = $2 AND claim_token = $3 AND state = 'claimed'"]
  parameters := [.int8 offset, .text group, .uuid token, .seconds redeliverAfter]

def renew (offset : Int) (group : String) (token : Uuid) (lease : Duration) : Statement where
  sql := clauses [
    "UPDATE letterbox_deliveries SET visible_at = now() + make_interval(secs => $4)",
    "WHERE offset_id = $1 AND consumer_group = $2 AND claim_token = $3 AND state = 'claimed'"]
  parameters := [.int8 offset, .text group, .uuid token, .seconds lease]

/-- Moves the watermark of a group over the acknowledged messages next above it and drops their rows. -/
def advance (topic group : String) : Statement where
  sql := clauses [
    mark,
    "horizon AS ( SELECT pg_snapshot_xmin(pg_current_snapshot()) AS xmin ),",
    "blocker AS ( SELECT m.tx_id, m.offset_id FROM letterbox_messages m CROSS JOIN mark CROSS JOIN horizon",
    "LEFT JOIN letterbox_deliveries d ON d.offset_id = m.offset_id AND d.consumer_group = $2",
    "WHERE m.topic = $1 AND (m.tx_id, m.offset_id) > (mark.tx, mark.off)",
    "AND (m.tx_id >= horizon.xmin OR d.state IS DISTINCT FROM 'acked') ORDER BY m.tx_id, m.offset_id LIMIT 1 ),",
    "target AS ( SELECT m.tx_id, m.offset_id FROM letterbox_messages m CROSS JOIN mark CROSS JOIN horizon",
    "WHERE m.topic = $1 AND (m.tx_id, m.offset_id) > (mark.tx, mark.off) AND m.tx_id < horizon.xmin",
    "AND NOT EXISTS ( SELECT 1 FROM blocker b WHERE (m.tx_id, m.offset_id) >= (b.tx_id, b.offset_id) )",
    "ORDER BY m.tx_id DESC, m.offset_id DESC LIMIT 1 ),",
    "pruned AS ( DELETE FROM letterbox_deliveries d USING letterbox_messages m, mark, target",
    "WHERE d.consumer_group = $2 AND d.offset_id = m.offset_id AND m.topic = $1",
    "AND (m.tx_id, m.offset_id) > (mark.tx, mark.off)",
    "AND (m.tx_id, m.offset_id) <= (target.tx_id, target.offset_id) )",
    "INSERT INTO letterbox_offsets (topic, consumer_group, acked_tx, acked_offset)",
    "SELECT $1, $2, tx_id, offset_id FROM target ON CONFLICT (topic, consumer_group) DO UPDATE",
    "SET acked_tx = EXCLUDED.acked_tx, acked_offset = EXCLUDED.acked_offset",
    "WHERE (letterbox_offsets.acked_tx, letterbox_offsets.acked_offset)",
    "< (EXCLUDED.acked_tx, EXCLUDED.acked_offset)"]
  parameters := [.text topic, .text group]

def deleteDeliveries (topic group : String) : Statement where
  sql := clauses [
    "DELETE FROM letterbox_deliveries d USING letterbox_messages m",
    "WHERE d.consumer_group = $2 AND d.offset_id = m.offset_id AND m.topic = $1"]
  parameters := [.text topic, .text group]

def deleteOffset (topic group : String) : Statement where
  sql := "DELETE FROM letterbox_offsets WHERE topic = $1 AND consumer_group = $2"
  parameters := [.text topic, .text group]

end Statement

end DurableBus.Postgres
