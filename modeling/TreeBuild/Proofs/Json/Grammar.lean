import Mathlib.Data.List.Chain
import TreeBuild.Proofs.Json.Words

/-!
# The grammar of JSON

A document is a value by the grammar. A reader that expects a value reads every such sequence of lexemes,
unless too many containers are open at once or a whole number has too many digits, and it accepts no others.
-/
namespace TreeBuild.Json

/-- The parts of a document. -/
inductive Symbol where
  | value
  /-- The items of an array, with commas between them. -/
  | items
  /-- The names and values of an object, with commas between them. -/
  | members
  deriving DecidableEq, Repr

/-- The grammar of JSON. -/
inductive Phrase : Symbol → List Token → Prop where
  | text (units : Text.Units) : Phrase .value [.text units]
  | scalar (value : Json) : Phrase .value [.scalar value]
  | hugeNumber (digits : Nat) : Phrase .value [.hugeNumber digits]
  | emptyArray : Phrase .value [.openArray, .closeArray]
  | array {tokens : List Token} (items : Phrase .items tokens) : Phrase .value ([.openArray] ++ tokens ++ [.closeArray])
  | emptyObject : Phrase .value [.openObject, .closeObject]
  | object {tokens : List Token} (members : Phrase .members tokens) :
      Phrase .value ([.openObject] ++ tokens ++ [.closeObject])
  | lastItem {tokens : List Token} (value : Phrase .value tokens) : Phrase .items tokens
  | item {tokens more : List Token} (value : Phrase .value tokens) (others : Phrase .items more) :
      Phrase .items (tokens ++ [.comma] ++ more)
  | lastMember (name : Text.Units) {tokens : List Token} (value : Phrase .value tokens) :
      Phrase .members ([.text name, .colon] ++ tokens)
  | member (name : Text.Units) {tokens more : List Token} (value : Phrase .value tokens)
      (others : Phrase .members more) : Phrase .members ([.text name, .colon] ++ tokens ++ [.comma] ++ more)

/-- A phrase consists of lexemes that are really there. -/
theorem Phrase.isReal {symbol : Symbol} {tokens : List Token} (phrase : Phrase symbol tokens) :
    ∀ token ∈ tokens, token.isReal := by
  induction phrase <;> simp_all [Token.isReal, or_imp]

/-! ### Lexemes next to each other -/

/-- A lexeme may stand in front of another: two numbers or names do not follow each other, and no container ends
behind a comma. -/
structure Token.Joins (first second : Token) : Prop where
  apart : first.isLettered → second.isLettered = false
  opens : first = .comma → second ≠ .closeArray ∧ second ≠ .closeObject

/-- Whether a value can begin with a lexeme. -/
def Token.begins : Token → Bool
  | .openArray | .openObject | .text _ | .scalar _ | .hugeNumber _ => true
  | _ => false

/-- Whether a value can end with a lexeme. -/
def Token.ends : Token → Bool
  | .closeArray | .closeObject | .text _ | .scalar _ | .hugeNumber _ => true
  | _ => false

/-- What ends a value joins with everything but numbers and names. -/
theorem Token.Joins.of_ends {first second : Token} (ends : first.ends) (unlettered : second.isLettered = false) :
    first.Joins second :=
  ⟨fun _ => unlettered, by rintro rfl; cases ends⟩

/-- What begins a value joins with everything but numbers and names. -/
theorem Token.Joins.of_begins {first second : Token} (unlettered : first.isLettered = false)
    (begins : second.begins) : first.Joins second where
  apart lettered := by rw [unlettered] at lettered; cases lettered
  opens _ := by constructor <;> (rintro rfl; cases begins)

/-- Lexemes from a first to a last one of which each joins with the next. -/
structure Joined (first last : Token) (tokens : List Token) : Prop where
  chain : tokens.IsChain Token.Joins
  head : tokens.head? = some first
  final : tokens.getLast? = some last

/-- A single lexeme is the first and the last. -/
theorem Joined.single (token : Token) : Joined token token [token] := ⟨.singleton token, rfl, rfl⟩

/-- Two rows of lexemes are joined if the last of the one joins with the first of the other. -/
theorem Joined.append {first last next final : Token} {tokens more : List Token}
    (joined : Joined first last tokens) (others : Joined next final more) (joins : last.Joins next) :
    Joined first final (tokens ++ more) where
  chain := by
    refine List.isChain_append.mpr ⟨joined.chain, others.chain, fun one ends other begins => ?_⟩
    obtain rfl := Option.some.inj (joined.final.symm.trans ends)
    obtain rfl := Option.some.inj (others.head.symm.trans begins)
    exact joins
  head := by rw [List.head?_append, joined.head]; rfl
  final := by rw [List.getLast?_append, others.final]; rfl

section

variable {first last next final : Token} {tokens more : List Token}

/-- Brackets join with what stands between them. -/
theorem Joined.enclose {opening closing : Token} (joined : Joined first last tokens) (begins : first.begins)
    (ends : last.ends) (opens : opening.isLettered = false) (closes : closing.isLettered = false) :
    Joined opening closing ([opening] ++ tokens ++ [closing]) :=
  ((Joined.single opening).append joined (.of_begins opens begins)).append (.single closing) (.of_ends ends closes)

/-- A comma joins with a value on each side. -/
theorem Joined.separate (joined : Joined first last tokens) (ends : last.ends) (others : Joined next final more)
    (begins : next.begins) : Joined first final (tokens ++ [.comma] ++ more) :=
  (joined.append (.single .comma) (.of_ends ends rfl)).append others (.of_begins rfl begins)

/-- A name joins with its value. -/
theorem Joined.named (name : Text.Units) (joined : Joined first last tokens) (begins : first.begins) :
    Joined (.text name) last ([.text name, .colon] ++ tokens) :=
  ((Joined.single (.text name)).append (.single .colon) (.of_ends rfl rfl)).append joined (.of_begins rfl begins)

end

/-- The lexemes of a part of a document join, from one that begins a value to one that ends a value. -/
theorem Phrase.joined {symbol : Symbol} {tokens : List Token} (phrase : Phrase symbol tokens) :
    ∃ first last, Joined first last tokens ∧ first.begins ∧ last.ends := by
  induction phrase with
  | text units => exact ⟨_, _, .single _, rfl, rfl⟩
  | scalar value => exact ⟨_, _, .single _, rfl, rfl⟩
  | hugeNumber digits => exact ⟨_, _, .single _, rfl, rfl⟩
  | emptyArray =>
    exact ⟨_, _, (Joined.single .openArray).append (.single .closeArray) ⟨nofun, nofun⟩, rfl, rfl⟩
  | emptyObject =>
    exact ⟨_, _, (Joined.single .openObject).append (.single .closeObject) ⟨nofun, nofun⟩, rfl, rfl⟩
  | array _ items =>
    obtain ⟨first, last, joined, begins, ends⟩ := items
    exact ⟨.openArray, .closeArray, joined.enclose begins ends rfl rfl, rfl, rfl⟩
  | object _ members =>
    obtain ⟨first, last, joined, begins, ends⟩ := members
    exact ⟨.openObject, .closeObject, joined.enclose begins ends rfl rfl, rfl, rfl⟩
  | lastItem _ item => exact item
  | item _ _ item others =>
    obtain ⟨first, last, joined, begins, ends⟩ := item
    obtain ⟨next, final, later, nextBegins, finalEnds⟩ := others
    exact ⟨first, final, joined.separate ends later nextBegins, begins, finalEnds⟩
  | lastMember name _ value =>
    obtain ⟨first, last, joined, begins, ends⟩ := value
    exact ⟨.text name, last, joined.named name begins, rfl, ends⟩
  | member name _ _ value others =>
    obtain ⟨first, last, joined, begins, ends⟩ := value
    obtain ⟨next, final, later, nextBegins, finalEnds⟩ := others
    exact ⟨.text name, final, (joined.named name begins).separate ends later nextBegins, rfl, finalEnds⟩

/-! ### What a reader makes of a document -/

/-- What comes of reading lexemes, wherever they stand. -/
def readTokens (state : State) (tokens : List Token) : Except Stop Json :=
  readFrom 0 state (tokens.map fun token => ⟨token, 0⟩)

/-- Lexemes are read one by one as long as each of them leads on. -/
theorem readTokens_cons (state : State) (token : Token) (tokens : List Token) :
    readTokens state (token :: tokens) =
      match step state ⟨token, 0⟩ with
      | .ok next => readTokens next tokens
      | .error stop => .error stop := rfl

/-- Whether reading stops because a text is too large. -/
def Stop.isLimit : Stop → Bool
  | .malformed _ _ => false
  | _ => true

/-- From a state on, lexemes are read and lead to one of some states, or reading stops because something is too
large, whatever follows. -/
def Leads (state : State) (tokens : List Token) (reached : State → Prop) : Prop :=
  (∃ next, reached next ∧ ∀ rest, readTokens state (tokens ++ rest) = readTokens next rest) ∨
    ∃ stop : Stop, stop.isLimit ∧ ∀ rest, readTokens state (tokens ++ rest) = .error stop

section

variable {state next : State} {tokens more : List Token} {token : Token} {reached final : State → Prop}

/-- Two parts lead on together. -/
theorem Leads.trans (first : Leads state tokens reached) (second : ∀ next, reached next → Leads next more final) :
    Leads state (tokens ++ more) final := by
  rcases first with ⟨next, met, reads⟩ | ⟨stop, limit, stops⟩
  · rcases second next met with ⟨last, ends, readsOn⟩ | ⟨stop, limit, stops⟩
    · exact .inl ⟨last, ends, fun rest => by rw [List.append_assoc, reads, readsOn]⟩
    · exact .inr ⟨stop, limit, fun rest => by rw [List.append_assoc, reads, stops]⟩
  · exact .inr ⟨stop, limit, fun rest => by rw [List.append_assoc, stops]⟩

/-- One lexeme that advances leads on. -/
theorem Leads.step (advances : Advances state token next) (met : reached next) : Leads state [token] reached :=
  .inl ⟨next, met, fun rest => by rw [List.singleton_append, readTokens_cons, advances.step 0]⟩

/-- It leads to the state that it advances to. -/
theorem Leads.advance (advances : Advances state token next) : Leads state [token] (· = next) :=
  .step advances rfl

/-- Less may be asked of what is reached. -/
theorem Leads.mono (leads : Leads state tokens reached) (weaker : ∀ next, reached next → final next) :
    Leads state tokens final :=
  leads.imp_left fun ⟨next, met, reads⟩ => ⟨next, weaker next met, reads⟩

/-- A lexeme at which a limit stops the reading leads to a stop, whatever follows. -/
theorem Leads.stop {stop : Stop} (stopped : Json.step state ⟨token, 0⟩ = .error stop) (limit : stop.isLimit) :
    Leads state [token] reached :=
  .inr ⟨stop, limit, fun rest => by rw [List.singleton_append, readTokens_cons, stopped]⟩

end

/-- Whether a reader may expect a part of a document. -/
def Symbol.Starts : Symbol → State → Prop
  | .value, state => state.expecting = .value ∨ state.expecting = .itemOrEnd
  | .items, state => (state.expecting = .value ∨ state.expecting = .itemOrEnd) ∧
      ∃ before outer, state.frames = .array before :: outer
  | .members, state => (state.expecting = .name ∨ state.expecting = .nameOrEnd) ∧
      ∃ before outer, state.frames = .object before :: outer

/-- Where a reader is behind a part of a document. -/
def Symbol.Ends : Symbol → State → State → Prop
  | .value, state, next => ∃ value, next = ⟨.after value, state.frames⟩
  | .items, state, next => ∃ value before, next = ⟨.after value, .array before :: state.frames.tail⟩
  | .members, state, next => ∃ value before name,
      next = ⟨.after value, .named before name :: state.frames.tail⟩

/-- Where a value may stand, every lexeme but the end of an array is taken for the beginning of one. -/
theorem step_of_starts {expecting : Expecting} {frames : List Frame} {token : Token}
    (starts : Symbol.value.Starts ⟨expecting, frames⟩) (inside : token ≠ .closeArray) (offset : Nat) :
    step ⟨expecting, frames⟩ ⟨token, offset⟩ = stepValue frames ⟨token, offset⟩ := by
  rcases starts with same | same <;> (change expecting = _ at same; subst same)
  · rfl
  · rcases frames with _ | ⟨_ | _ | _, outer⟩ <;> cases token <;> first | rfl | exact absurd rfl inside

/-- An array is opened where a value may stand, if there is room for it. -/
theorem leads_openArray {expecting : Expecting} {frames : List Frame}
    (starts : Symbol.value.Starts ⟨expecting, frames⟩) :
    Leads ⟨expecting, frames⟩ [.openArray] (· = ⟨.itemOrEnd, .array [] :: frames⟩) := by
  cases room : hasRoom frames with
  | true => exact .advance (.openArray starts room)
  | false =>
    have full : stepValue frames ⟨.openArray, 0⟩ = .error (.tooDeep .array) := by simp [stepValue, room]
    exact .stop ((step_of_starts starts (by simp) 0).trans full) rfl

/-- An object is opened where a value may stand, if there is room for it. -/
theorem leads_openObject {expecting : Expecting} {frames : List Frame}
    (starts : Symbol.value.Starts ⟨expecting, frames⟩) :
    Leads ⟨expecting, frames⟩ [.openObject] (· = ⟨.nameOrEnd, .object [] :: frames⟩) := by
  cases room : hasRoom frames with
  | true => exact .advance (.openObject starts room)
  | false =>
    have full : stepValue frames ⟨.openObject, 0⟩ = .error (.tooDeep .object) := by simp [stepValue, room]
    exact .stop ((step_of_starts starts (by simp) 0).trans full) rfl

/-- A name is read with the colon behind it. -/
theorem leads_name {expecting : Expecting} {before : Fields} {outer : List Frame} (name : Text.Units)
    (starts : expecting = .name ∨ expecting = .nameOrEnd) :
    Leads ⟨expecting, .object before :: outer⟩ [.text name, .colon]
      (· = ⟨.value, .named before name :: outer⟩) :=
  (Leads.advance (.name starts name)).trans fun _ same => same ▸ .advance (.colon name before outer)

/-- A reader that expects a part of a document reads it, or something is too large. -/
theorem Phrase.leads {symbol : Symbol} {tokens : List Token} (phrase : Phrase symbol tokens) :
    ∀ state, symbol.Starts state → Leads state tokens (symbol.Ends state) := by
  induction phrase with
  | text units => exact fun ⟨expecting, frames⟩ starts => .step (.text starts units) ⟨_, rfl⟩
  | scalar value => exact fun ⟨expecting, frames⟩ starts => .step (.scalar starts value) ⟨_, rfl⟩
  | hugeNumber digits =>
    intro ⟨expecting, frames⟩ starts
    have huge : stepValue frames ⟨.hugeNumber digits, 0⟩ = .error (.hugeNumber digits) := rfl
    exact .stop ((step_of_starts starts (by simp) 0).trans huge) rfl
  | emptyArray =>
    exact fun ⟨expecting, frames⟩ starts => (leads_openArray starts).trans fun _ same =>
      same ▸ .step (.emptyArray [] frames) ⟨_, rfl⟩
  | @array tokens _ items =>
    intro ⟨expecting, frames⟩ starts
    have opened : Leads ⟨expecting, frames⟩ ([.openArray] ++ tokens)
        (Symbol.items.Ends ⟨.itemOrEnd, .array [] :: frames⟩) := by
      refine (leads_openArray starts).trans ?_
      rintro _ rfl
      exact items _ ⟨.inr rfl, [], frames, rfl⟩
    refine opened.trans ?_
    rintro _ ⟨value, before, rfl⟩
    exact .step (.closeArray value before frames) ⟨_, rfl⟩
  | emptyObject =>
    exact fun ⟨expecting, frames⟩ starts => (leads_openObject starts).trans fun _ same =>
      same ▸ .step (.emptyObject [] frames) ⟨_, rfl⟩
  | @object tokens _ members =>
    intro ⟨expecting, frames⟩ starts
    have opened : Leads ⟨expecting, frames⟩ ([.openObject] ++ tokens)
        (Symbol.members.Ends ⟨.nameOrEnd, .object [] :: frames⟩) := by
      refine (leads_openObject starts).trans ?_
      rintro _ rfl
      exact members _ ⟨.inr rfl, [], frames, rfl⟩
    refine opened.trans ?_
    rintro _ ⟨value, before, name, rfl⟩
    exact .step (.closeObject value before name frames) ⟨_, rfl⟩
  | lastItem _ item =>
    rintro ⟨expecting, frames⟩ ⟨starts, before, outer, rfl⟩
    have read := item ⟨expecting, .array before :: outer⟩ starts
    exact read.mono fun _ ⟨value, same⟩ => ⟨value, before, same⟩
  | item _ _ item others =>
    rintro ⟨expecting, frames⟩ ⟨starts, before, outer, rfl⟩
    rw [List.append_assoc]
    refine (item ⟨expecting, .array before :: outer⟩ starts).trans ?_
    rintro _ ⟨value, rfl⟩
    refine (Leads.advance (.nextItem value before outer)).trans ?_
    rintro _ rfl
    exact others _ ⟨.inl rfl, _, outer, rfl⟩
  | lastMember name _ value =>
    rintro ⟨expecting, frames⟩ ⟨starts, before, outer, rfl⟩
    refine (leads_name name starts).trans ?_
    rintro _ rfl
    exact (value _ (.inl rfl)).mono fun _ ⟨value, same⟩ => ⟨value, before, name, same⟩
  | member name _ _ value others =>
    rintro ⟨expecting, frames⟩ ⟨starts, before, outer, rfl⟩
    rw [List.append_assoc, List.append_assoc]
    refine (leads_name name starts).trans ?_
    rintro _ rfl
    refine (value _ (.inl rfl)).trans ?_
    rintro _ ⟨value, rfl⟩
    refine (Leads.advance (.nextField value before name outer)).trans ?_
    rintro _ rfl
    exact others _ ⟨.inl rfl, _, outer, rfl⟩

/-- Reading a document goes wrong only if it is too large. -/
theorem Phrase.isLimit {tokens : List Token} (phrase : Phrase .value tokens) {stop : Stop}
    (stopped : readTokens ⟨.value, []⟩ tokens = .error stop) : stop.isLimit := by
  have leads := phrase.leads ⟨.value, []⟩ (.inl rfl)
  rcases leads with ⟨next, ⟨value, rfl⟩, reads⟩ | ⟨other, limit, stops⟩
  · have whole := reads []
    rw [List.append_nil, stopped] at whole
    cases whole
  · have whole := stops []
    rw [List.append_nil, stopped] at whole
    exact Except.error.inj whole ▸ limit

/-! ### What a reader accepts -/

/-- What open containers demand of the lexemes behind a value within them. -/
def Closes : List Frame → List Token → Prop
  | [], tokens => tokens = []
  | .array _ :: outer, tokens => ∃ rest, Closes outer rest ∧
      (tokens = .closeArray :: rest ∨
        ∃ items, Phrase .items items ∧ tokens = [.comma] ++ items ++ .closeArray :: rest)
  | .object _ :: _, _ => False
  | .named _ _ :: outer, tokens => ∃ rest, Closes outer rest ∧
      (tokens = .closeObject :: rest ∨
        ∃ members, Phrase .members members ∧ tokens = [.comma] ++ members ++ .closeObject :: rest)

/-- A value comes first, and what is behind it closes the open containers. -/
def BeginsValue (frames : List Frame) (tokens : List Token) : Prop :=
  ∃ value rest, Phrase .value value ∧ tokens = value ++ rest ∧ Closes frames rest

/-- Members of an object come first, and what is behind them closes it and the open containers around it. -/
def BeginsMembers (outer : List Frame) (tokens : List Token) : Prop :=
  ∃ members rest, Phrase .members members ∧ tokens = members ++ .closeObject :: rest ∧ Closes outer rest

/-- The lexemes that a reader accepts in some state. -/
inductive Completes : State → List Token → Prop where
  | after {value : Json} {frames : List Frame} {tokens : List Token} (closes : Closes frames tokens) :
      Completes ⟨.after value, frames⟩ tokens
  | value {frames : List Frame} {tokens : List Token} (begins : BeginsValue frames tokens) :
      Completes ⟨.value, frames⟩ tokens
  | item {frames : List Frame} {tokens : List Token} (begins : BeginsValue frames tokens) :
      Completes ⟨.itemOrEnd, frames⟩ tokens
  | emptyArray {before : List Json} {outer : List Frame} {rest : List Token} (closes : Closes outer rest) :
      Completes ⟨.itemOrEnd, .array before :: outer⟩ (.closeArray :: rest)
  | name {before : Fields} {outer : List Frame} {tokens : List Token} (begins : BeginsMembers outer tokens) :
      Completes ⟨.name, .object before :: outer⟩ tokens
  | firstName {before : Fields} {outer : List Frame} {tokens : List Token} (begins : BeginsMembers outer tokens) :
      Completes ⟨.nameOrEnd, .object before :: outer⟩ tokens
  | emptyObject {before : Fields} {outer : List Frame} {rest : List Token} (closes : Closes outer rest) :
      Completes ⟨.nameOrEnd, .object before :: outer⟩ (.closeObject :: rest)
  | colon {name : Text.Units} {before : Fields} {outer : List Frame} {tokens : List Token}
      (begins : BeginsValue (.named before name :: outer) tokens) :
      Completes ⟨.colon name, .object before :: outer⟩ (.colon :: tokens)

/-- What begins with a value completes a document where a value is expected. -/
theorem BeginsValue.completes {expecting : Expecting} {frames : List Frame} {tokens : List Token}
    (begins : BeginsValue frames tokens) (expects : expecting = .value ∨ expecting = .itemOrEnd) :
    Completes ⟨expecting, frames⟩ tokens := by
  rcases expects with rfl | rfl
  · exact .value begins
  · exact .item begins

/-- A value in front of members is the first of them. -/
theorem BeginsValue.members {before : Fields} {name : Text.Units} {outer : List Frame} {tokens : List Token}
    (begins : BeginsValue (.named before name :: outer) tokens) :
    BeginsMembers outer (.text name :: .colon :: tokens) := by
  obtain ⟨value, rest, phrase, rfl, outer, closes, rfl | ⟨members, later, rfl⟩⟩ := begins
  · exact ⟨_, outer, .lastMember name phrase, by simp, closes⟩
  · exact ⟨_, outer, .member name phrase later, by simp, closes⟩

/-- A value in front of items is the first of them. -/
theorem BeginsValue.items {before : List Json} {outer : List Frame} {tokens : List Token}
    (begins : BeginsValue (.array before :: outer) tokens) :
    ∃ items rest, Phrase .items items ∧ tokens = items ++ .closeArray :: rest ∧ Closes outer rest := by
  obtain ⟨value, rest, phrase, rfl, outer, closes, rfl | ⟨items, later, rfl⟩⟩ := begins
  · exact ⟨_, outer, .lastItem phrase, by simp, closes⟩
  · exact ⟨_, outer, .item phrase later, by simp, closes⟩

/-- A reader that takes a step accepts the lexeme in front of those that it accepts then. -/
theorem Completes.of_advances {state next : State} {token : Token} {tokens : List Token}
    (advances : Advances state token next) (completes : Completes next tokens) :
    Completes state (token :: tokens) := by
  cases advances with
  | openArray expects room =>
    refine BeginsValue.completes ?_ expects
    cases completes with
    | item begins =>
      obtain ⟨items, rest, phrase, rfl, closes⟩ := begins.items
      exact ⟨_, rest, .array phrase, by simp, closes⟩
    | emptyArray closes => exact ⟨_, _, .emptyArray, rfl, closes⟩
  | openObject expects room =>
    refine BeginsValue.completes ?_ expects
    cases completes with
    | firstName begins =>
      obtain ⟨members, rest, phrase, rfl, closes⟩ := begins
      exact ⟨_, rest, .object phrase, by simp, closes⟩
    | emptyObject closes => exact ⟨_, _, .emptyObject, rfl, closes⟩
  | text expects units =>
    obtain ⟨closes⟩ := completes
    exact BeginsValue.completes ⟨_, tokens, .text units, rfl, closes⟩ expects
  | scalar expects value =>
    obtain ⟨closes⟩ := completes
    exact BeginsValue.completes ⟨_, tokens, .scalar value, rfl, closes⟩ expects
  | name expects units =>
    obtain _ | _ | _ | _ | _ | _ | _ | ⟨begins⟩ := completes
    rcases expects with rfl | rfl
    · exact .name begins.members
    · exact .firstName begins.members
  | colon name before outer =>
    cases completes with
    | value begins => exact .colon begins
  | nextItem value before outer =>
    cases completes with
    | value begins =>
      obtain ⟨items, rest, phrase, rfl, closes⟩ := begins.items
      exact .after ⟨rest, closes, .inr ⟨items, phrase, rfl⟩⟩
  | nextField value before name outer =>
    cases completes with
    | name begins =>
      obtain ⟨members, rest, phrase, rfl, closes⟩ := begins
      exact .after ⟨rest, closes, .inr ⟨members, phrase, rfl⟩⟩
  | emptyArray before outer =>
    cases completes with
    | after closes => exact .emptyArray closes
  | closeArray value before outer =>
    cases completes with
    | after closes => exact .after ⟨tokens, closes, .inl rfl⟩
  | emptyObject before outer =>
    cases completes with
    | after closes => exact .emptyObject closes
  | closeObject value before name outer =>
    cases completes with
    | after closes => exact .after ⟨tokens, closes, .inl rfl⟩

/-- The lexemes of a text that is read to its end are a value by the grammar. -/
theorem phrase_of_readFrom {length : Nat} {lexemes : List Lexeme} {value : Json}
    (read : readFrom length ⟨.value, []⟩ lexemes = .ok value) : Phrase .value (lexemes.map Lexeme.token) := by
  have completes : ∀ (lexemes : List Lexeme) (state : State), readFrom length state lexemes = .ok value →
      Completes state (lexemes.map Lexeme.token) := by
    intro lexemes
    induction lexemes with
    | nil =>
      rintro ⟨expecting, frames⟩ read
      rw [readFrom] at read
      cases expecting <;> cases frames <;> cases read
      exact .after rfl
    | cons lexeme rest inductionHypothesis =>
      intro state read
      obtain ⟨next, stepped, readOn⟩ := exists_next read
      exact .of_advances (advances_of_step stepped) (inductionHypothesis next readOn)
  cases completes lexemes _ read with
  | value begins =>
    obtain ⟨value, rest, phrase, same, rfl⟩ := begins
    rw [List.append_nil] at same
    exact same ▸ phrase

end TreeBuild.Json
