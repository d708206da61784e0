import Mathlib.Data.List.Forall2
import DurableBus.Proofs.FirstFailure
import DurableBus.Proofs.Json.Document
import DurableBus.Proofs.Postgres.Transaction

/-!
# Messages rebuilt from their rows

What a claim makes of the rows that the database answers with. A row is judged by what its columns hold; that a row
holds what was bound when a message was stored is `Holds`.

* `Row.IsDecodable`, `Row.Fails` : what can come of a row (`Row.judged_readClaimed`);
* `readClaimed_holds` : a stored message is rebuilt;
* `claim_rebuilds` : a claim rebuilds what was stored, and fails with the first row that cannot be read.
-/

set_option autoImplicit false

namespace DurableBus.Postgres

/-! ## Cells -/

namespace Cell

def IsInt (c : Cell) : Prop := ∃ i, c = .int i

def IsUuid (c : Cell) : Prop := ∃ u, c = .uuid u

def IsBytes (c : Cell) : Prop := ∃ b, c = .bytes b

def IsInstant (c : Cell) : Prop := ∃ t, c = .instant t

/-- A cell holds the text of a document. -/
def Spells (c : Cell) (v : Json.Value) : Prop :=
  ∃ source, c = .json source ∧ Json.parse (Json.value Json.maxDepth) source = .ok v

def IsDocument (c : Cell) : Prop := ∃ v, c.Spells v

/-- A cell holds the text of an object of strings. -/
def IsTexts (c : Cell) : Prop := ∃ v, c.Spells v ∧ v.IsTexts

variable (c : Cell)

theorem isInt_iff : c.IsInt ↔ ∃ i, c.int? = some i := by
  cases c <;> simp [IsInt, int?]

theorem isUuid_iff : c.IsUuid ↔ ∃ u, c.uuid? = some u := by
  cases c <;> simp [IsUuid, uuid?]

theorem isBytes_iff : c.IsBytes ↔ ∃ b, c.bytes? = some b := by
  cases c <;> simp [IsBytes, bytes?]

theorem isInstant_iff : c.IsInstant ↔ ∃ t, c.instant? = some t := by
  cases c <;> simp [IsInstant, instant?]

theorem json?_eq_some_iff (v : Json.Value) : c.json? = some v ↔ c.Spells v := by
  unfold Spells
  cases c with
  | json source =>
    cases hparse : Json.parse (Json.value Json.maxDepth) source with
    | ok w => simp [json?, hparse, Except.toOption]
    | error p => simp [json?, hparse, Except.toOption]
  | _ => simp [json?]

theorem Spells.unique {c : Cell} {v v' : Json.Value} (h : c.Spells v) (h' : c.Spells v') : v = v' :=
  Option.some.inj (((c.json?_eq_some_iff v).2 h).symm.trans ((c.json?_eq_some_iff v').2 h'))

theorem isDocument_iff : c.IsDocument ↔ ∃ v, c.json? = some v :=
  exists_congr fun v => (c.json?_eq_some_iff v).symm

end Cell

/-! ## Rows -/

/-- What a column has to hold, and how a claim fails if it does not. -/
structure Check where
  column : String
  holds : Cell → Prop
  error : Error

/-- A column that has to be there and of a kind. -/
def Check.reads (column : String) (kind : Cell → Prop) : Check := ⟨column, kind, .unreadable (.named column)⟩

/-- What a claim checks in a row, in order: the six columns, and then that the metadata is an object of strings. -/
def checks : List Check :=
  [.reads "offset_id" Cell.IsInt, .reads "uuid" Cell.IsUuid, .reads "payload" Cell.IsBytes,
    .reads "metadata" Cell.IsDocument, .reads "created_at" Cell.IsInstant, .reads "attempts" Cell.IsInt,
    ⟨"metadata", Cell.IsTexts, .badMetadata .mismatched⟩]

namespace Row

def Passes (row : Row) (k : Check) : Prop := k.holds (row.cell k.column)

/-- A row from which a message can be rebuilt. -/
def IsDecodable (row : Row) : Prop := ∀ k ∈ checks, row.Passes k

/-- Why no message can be rebuilt from a row. -/
def Fails (row : Row) (e : Error) : Prop := ∃ k, FirstFailing row.Passes checks k ∧ e = k.error

variable (row : Row)

theorem not_isDecodable_iff : ¬ row.IsDecodable ↔ ∃ e, row.Fails e := by
  unfold IsDecodable Fails
  push Not
  rw [← exists_firstFailing_iff]
  exact ⟨fun ⟨k, hk⟩ => ⟨k.error, k, hk, rfl⟩, fun ⟨_, k, hk, _⟩ => ⟨k, hk⟩⟩

theorem read_eq_ok_iff {α : Type} (column : String) (f : Cell → Option α) (a : α) :
    row.read column f = .ok a ↔ f (row.cell column) = some a := by
  unfold read
  cases f (row.cell column) <;> simp

/-- To read a column is a step, and its check is that the column is of its kind. -/
theorem read_or_fails {α : Type} (column : String) {kind : Cell → Prop} {f : Cell → Option α}
    (hkind : ∀ c, kind c ↔ ∃ a, f c = some a) :
    (∃ a, row.read column f = .ok a ∧ row.Passes (.reads column kind)) ∨
      ∃ e, row.read column f = .error e ∧ ¬ row.Passes (.reads column kind) ∧ e = (Check.reads column kind).error := by
  unfold Passes Check.reads
  simp only [hkind]
  cases hcell : f (row.cell column) with
  | some a => exact .inl ⟨a, (row.read_eq_ok_iff column f a).2 hcell, a, rfl⟩
  | none => exact .inr ⟨_, by rw [read, hcell], by simp, rfl⟩

/-- **What comes of a row is what can come of it**: the columns are read in order, and the metadata behind them. -/
theorem judged_readClaimed (group : String) (token : Uuid) :
    Judged row.Passes (fun k e => e = k.error) checks (fun _ => True) (readClaimed group token row) := by
  unfold readClaimed
  refine .bind rfl (List.forall_mem_nil _) (row.read_or_fails "offset_id" Cell.isInt_iff) fun offset _ hall => ?_
  refine .bind rfl hall (row.read_or_fails "uuid" Cell.isUuid_iff) fun id _ hall => ?_
  refine .bind rfl hall (row.read_or_fails "payload" Cell.isBytes_iff) fun payload _ hall => ?_
  refine .bind rfl hall (row.read_or_fails "metadata" Cell.isDocument_iff) fun document hdocument hall => ?_
  refine .bind rfl hall (row.read_or_fails "created_at" Cell.isInstant_iff) fun createdAt _ hall => ?_
  refine .bind rfl hall (row.read_or_fails "attempts" Cell.isInt_iff) fun attempts _ hall => ?_
  have hspells := ((row.cell "metadata").json?_eq_some_iff document).1 ((row.read_eq_ok_iff _ _ _).1 hdocument)
  cases hmetadata : Metadata.ofJson? document with
  | none =>
    refine .fails rfl hall ?_ rfl
    rintro ⟨v, hv, htexts⟩
    rw [← hspells.unique hv] at htexts
    exact (Metadata.ofJson?_eq_none_iff document).1 hmetadata htexts
  | some metadata =>
    have htexts : document.IsTexts := by
      by_contra h
      rw [(Metadata.ofJson?_eq_none_iff document).2 h] at hmetadata
      cases hmetadata
    refine .inl ⟨_, rfl, fun k hk => ?_, trivial⟩
    obtain hk | hk := List.mem_append.1 (show k ∈ checks.take 6 ++ checks.drop 6 from hk)
    · exact hall k hk
    · rw [List.mem_singleton.1 hk]
      exact ⟨document, hspells, htexts⟩

theorem readClaimed_ok_iff (group : String) (token : Uuid) :
    (∃ c, readClaimed group token row = .ok c) ↔ row.IsDecodable :=
  (row.judged_readClaimed group token).ok_iff

theorem readClaimed_error_iff (group : String) (token : Uuid) (e : Error) :
    readClaimed group token row = .error e ↔ row.Fails e := by
  refine ⟨(row.judged_readClaimed group token).error_blames, ?_⟩
  rintro ⟨k, hfirst, rfl⟩
  obtain ⟨c, -, hall, -⟩ | ⟨k', e, he, hfirst', rfl⟩ := row.judged_readClaimed group token
  · exact absurd (hall k hfirst.mem) hfirst.fails
  · rw [he, hfirst.unique hfirst']

/-- Rows fail as the first of them does from which no message can be rebuilt. -/
theorem mapM_readClaimed_error_iff (group : String) (token : Uuid) (rows : List Row) (e : Error) :
    rows.mapM (readClaimed group token) = .error e ↔
      ∃ row, FirstFailing IsDecodable rows row ∧ row.Fails e := by
  rw [mapM_eq_error_iff]
  simp only [readClaimed_ok_iff, readClaimed_error_iff]

theorem mapM_readClaimed_fails_iff (group : String) (token : Uuid) (rows : List Row) :
    (∃ e, rows.mapM (readClaimed group token) = .error e) ↔ ∃ row ∈ rows, ¬ row.IsDecodable := by
  simp only [mapM_readClaimed_error_iff]
  rw [← exists_firstFailing_iff, exists_comm]
  refine exists_congr fun row => ⟨fun ⟨_, hfirst, _⟩ => hfirst, fun hfirst => ?_⟩
  obtain ⟨e, he⟩ := row.not_isDecodable_iff.1 hfirst.fails
  exact ⟨e, hfirst, he⟩

end Row

/-! ## Stored messages -/

/-- A row holds what a statement has stored: the identifier, the payload and the document that it binds. The database
adds an offset, an instant and a count. -/
structure Holds (q : Statement) (row : Row) : Prop where
  bound : ∃ id topic payload document, q.parameters = [.uuid id, .text topic, .bytes payload, .json document] ∧
    row.cell "uuid" = .uuid id ∧ row.cell "payload" = .bytes payload ∧ (row.cell "metadata").Spells document
  offset : (row.cell "offset_id").IsInt
  createdAt : (row.cell "created_at").IsInstant
  attempts : (row.cell "attempts").IsInt

/-- A message rebuilt from its row and claimed for a group under a token. -/
structure Rebuilds (group : String) (token : Uuid) (m : Message) (row : Row) (c : Claimed) : Prop where
  message : c.message = m
  receipt : ∃ offset, row.cell "offset_id" = .int offset ∧ c.receipt = ⟨offset, group, token⟩
  publishedAt : ∃ t, row.cell "created_at" = .instant t ∧ c.publishedAt = t + epochMicros
  deliveryCount : ∃ n, row.cell "attempts" = .int n ∧ c.deliveryCount = if n < 0 then 1 else n.toNat

theorem readClaimed_holds (group : String) (token : Uuid) {topic : String} {m : Message} {row : Row}
    (h : Holds (.insertMessage topic m.id m.payload m.metadata.toJson) row) :
    ∃ c, readClaimed group token row = .ok c ∧ Rebuilds group token m row c := by
  obtain ⟨⟨id, topic', payload, document, hbound, hid, hpayload, hspells⟩, ⟨offset, hoffset⟩, ⟨t, ht⟩, ⟨n, hn⟩⟩ := h
  cases hbound
  have hdocument := ((row.cell "metadata").json?_eq_some_iff _).2 hspells
  unfold readClaimed
  rw [(row.read_eq_ok_iff _ Cell.int? offset).2 (by rw [hoffset]; rfl),
    (row.read_eq_ok_iff _ Cell.uuid? m.id).2 (by rw [hid]; rfl),
    (row.read_eq_ok_iff _ Cell.bytes? m.payload).2 (by rw [hpayload]; rfl),
    (row.read_eq_ok_iff _ Cell.json? m.metadata.toJson).2 hdocument,
    (row.read_eq_ok_iff _ Cell.instant? t).2 (by rw [ht]; rfl),
    (row.read_eq_ok_iff _ Cell.int? n).2 (by rw [hn]; rfl)]
  simp only [bind, Except.bind, Metadata.ofJson?_toJson]
  refine ⟨_, rfl, rfl, ⟨offset, hoffset, rfl⟩, ⟨t, ht, rfl⟩, n, hn, ?_⟩
  simp only
  split <;> split <;> first | rfl | omega

theorem readClaimed_insertions (group : String) (token : Uuid) {topic : String} {messages : List Message}
    {rows : List Row} (h : List.Forall₂ Holds (insertions topic messages) rows) :
    ∃ claimed, rows.mapM (readClaimed group token) = .ok claimed ∧ claimed.length = rows.length ∧
      List.Forall₂ (fun x c => Rebuilds group token x.1 x.2 c) (messages.zip rows) claimed := by
  induction messages generalizing rows with
  | nil =>
    cases h
    exact ⟨[], rfl, rfl, .nil⟩
  | cons m messages ih =>
    cases h with
    | @cons _ row _ rows head tail =>
      obtain ⟨c, hc, hrebuilds⟩ := readClaimed_holds group token head
      obtain ⟨claimed, hclaimed, hlength, hall⟩ := ih tail
      refine ⟨c :: claimed, ?_, by simp [hlength], .cons hrebuilds hall⟩
      rw [List.mapM_cons, hc, hclaimed]
      rfl

/-! ## Claims -/

def claimStatement (request : ClaimRequest) (token : Uuid) : Statement :=
  .claim request.topic request.group request.after
    (if request.limit ≤ 0x7FFF_FFFF_FFFF_FFFF then (request.limit : Int) else 0x7FFF_FFFF_FFFF_FFFF) token request.lease

variable {σ : Type} (database : σ → Line → Response × σ) (s : σ) (request : ClaimRequest) (token : Uuid)

def claimAnswer : Response := (database s ⟨false, .query (claimStatement request token)⟩).1

theorem claim_eq : claim request token =
    (Dialogue.query false (claimStatement request token)).andThen fun outcome =>
      .done (outcome.rows.mapM (readClaimed request.group token)) := by
  have hlimit : ((min request.limit maxLimit : Nat) : Int) =
      if request.limit ≤ 0x7FFF_FFFF_FFFF_FFFF then (request.limit : Int) else 0x7FFF_FFFF_FFFF_FFFF := by
    unfold maxLimit
    split <;> omega
  unfold claim claimStatement
  simp only [hlimit]

theorem claim_refused {e : Error} (h : claimAnswer database s request token = .error e) :
    (claim request token).exchanges database s = [(⟨false, .query (claimStatement request token)⟩, .error e)] ∧
      (claim request token).result database s = .error e := by
  have hquery : (Dialogue.query false (claimStatement request token)).result database s = .error e := h
  obtain ⟨hsent, hr⟩ := Dialogue.andThen_error database s hquery fun outcome =>
    .done (outcome.rows.mapM (readClaimed request.group token))
  rw [claim_eq, hsent, hr, Dialogue.query, Dialogue.exchanges_tell]
  exact ⟨congrArg (fun r => [(_, r)]) h, rfl⟩

theorem claim_answered {outcome : Outcome} (h : claimAnswer database s request token = .ok outcome) :
    (claim request token).exchanges database s = [(⟨false, .query (claimStatement request token)⟩, .ok outcome)] ∧
      (claim request token).result database s = outcome.rows.mapM (readClaimed request.group token) := by
  have hquery : (Dialogue.query false (claimStatement request token)).result database s = .ok outcome := h
  obtain ⟨hsent, hr⟩ := Dialogue.andThen_ok database s hquery fun outcome =>
    .done (outcome.rows.mapM (readClaimed request.group token))
  rw [claim_eq, hsent, hr, Dialogue.query, Dialogue.exchanges_tell]
  exact ⟨congrArg (fun r => [(_, r)]) h, rfl⟩

/-- A row as the database gives it back, with its columns in another order than they are read. -/
def rowOf (offset : Int) (m : Message) (order : List (String × String)) (createdAt attempts : Int) : Row :=
  [("uuid", .uuid m.id), ("payload", .bytes m.payload),
    ("metadata", .json (Json.bytesOf (Metadata.spelled [' '] order))), ("attempts", .int attempts),
    ("created_at", .instant createdAt), ("offset_id", .int offset)]

theorem holds_rowOf (topic : String) (offset : Int) (m : Message) {order : List (String × String)}
    (horder : order.Perm m.metadata.entries) (createdAt attempts : Int) :
    Holds (.insertMessage topic m.id m.payload m.metadata.toJson) (rowOf offset m order createdAt attempts) where
  bound := ⟨m.id, topic, m.payload, m.metadata.toJson, rfl, rfl, rfl, _, rfl,
    Metadata.parse_spelled (by simp [Json.IsGap]) horder⟩
  offset := ⟨offset, rfl⟩
  createdAt := ⟨createdAt, rfl⟩
  attempts := ⟨attempts, rfl⟩

end DurableBus.Postgres
