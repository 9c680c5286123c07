import NotebookTidy.Json.Reader
import NotebookTidy.Layout.Writer
import NotebookTidy.Proofs.LiteralRoundTrip

/-!
# A written document is read back as its value

Writing and reading meet at the tokens.  `Json.tokensOf` lists the tokens of a value; the text that
the pen writes is read as exactly these, whatever the layout puts between them
(`Layout.foldlM_writeValue`), and the builder makes the value of them again
(`Json.foldlM_tokensOf`).  Both are inductions over the value.

Between two tokens the reader of characters may still hold a bare word that nothing has ended yet.
`Token.Settles` says which tokens such a state amounts to; every statement about texts is about
states up to it.
-/

namespace NotebookTidy

/-! ## The tokens of a value -/

namespace Json

mutual

/-- The tokens of a value. -/
def tokensOf (ascii : Bool) : Json → List Token
  | .null => [.null]
  | .boolean b => [.boolean b]
  | .number n => [.number n]
  | .string t => [.literal (t.flatMap (Literal.piecesOf ascii))]
  | .array items => .openArray :: (tokensOfItems ascii true items ++ [.closeArray])
  | .object members => .openObject :: (tokensOfMembers ascii true members ++ [.closeObject])

/-- The tokens of items, starting with the first one or not. -/
def tokensOfItems (ascii first : Bool) : List Json → List Token
  | [] => []
  | v :: rest =>
    (if first then [] else [.comma]) ++ (tokensOf ascii v ++ tokensOfItems ascii false rest)

/-- The tokens of members, starting with the first one or not. -/
def tokensOfMembers (ascii first : Bool) : List (Text × Json) → List Token
  | [] => []
  | (key, v) :: rest =>
    (if first then [] else [.comma]) ++ (.literal (key.flatMap (Literal.piecesOf ascii)) ::
      .colon :: (tokensOf ascii v ++ tokensOfMembers ascii false rest))

end

end Json

/-! ## From text to tokens -/

namespace Token

/-- A state between tokens, up to a bare word that nothing has ended yet, and the tokens that it
amounts to. -/
inductive Settles : Reading → List Token → Prop where
  | between (ts : List Token) : Settles ⟨ts, .between⟩ ts
  | bare {run : Text} {token : Token} (ts : List Token) (h : ofBare? run.reverse = some token) :
    Settles ⟨ts, .bare run⟩ (token :: ts)

/-- A character that ends bare words ends the one under way. -/
theorem Settles.step {r r' : Reading} {ts : List Token} {c : Char} (h : Settles r ts)
    (hc : delimiter? ts c = some r') : step r c = some r' := by
  cases h with
  | between => simp [Token.step, hc]
  | bare ts hword =>
    have hsome : ∃ r'', delimiter? ts c = some r'' := by
      unfold delimiter? at hc ⊢
      split
      · exact ⟨_, rfl⟩
      · split
        · exact ⟨_, rfl⟩
        · next hspace hquote =>
          rw [if_neg hspace, if_neg hquote] at hc
          obtain ⟨token, htoken, _⟩ := Option.map_eq_some_iff.mp hc
          exact ⟨_, by rw [htoken]; rfl⟩
    obtain ⟨r'', hr''⟩ := hsome
    simp [Token.step, hr'', hword, hc]

/-- A mark becomes a token. -/
theorem Settles.mark {r : Reading} {ts : List Token} {c : Char} {token : Token} (h : Settles r ts)
    (hc : ofMark? c = some token) : Token.step r c = some ⟨token :: ts, .between⟩ := by
  refine h.step ?_
  unfold delimiter?
  split
  · next hspace =>
    simp only [isSpace, Bool.or_eq_true, decide_eq_true_eq] at hspace
    rcases hspace with ((rfl | rfl) | rfl) | rfl <;> exact absurd hc (by simp [ofMark?])
  · split
    · next hquote => subst hquote; exact absurd hc (by simp [ofMark?])
    · rw [hc]; rfl

/-- Blanks leave the tokens as they are. -/
theorem Settles.blanks {r : Reading} {ts : List Token} {t : Text} (h : Settles r ts)
    (ht : ∀ c ∈ t, isSpace c = true) (hne : t ≠ []) :
    t.foldlM Token.step r = some ⟨ts, .between⟩ := by
  induction t generalizing r with
  | nil => exact absurd rfl hne
  | cons c t ih =>
    have hstep : Token.step r c = some ⟨ts, .between⟩ :=
      h.step (by simp [delimiter?, ht c List.mem_cons_self])
    rw [List.foldlM_cons, hstep, Option.bind_eq_bind, Option.bind_some]
    cases t with
    | nil => rfl
    | cons d t =>
      exact ih (.between ts) (fun e he => ht e (List.mem_cons_of_mem c he)) (List.cons_ne_nil d t)

theorem Settles.blanks' {r : Reading} {ts : List Token} {t : Text} (h : Settles r ts)
    (ht : ∀ c ∈ t, isSpace c = true) : ∃ r', t.foldlM Token.step r = some r' ∧ Settles r' ts := by
  by_cases hne : t = []
  · subst hne; exact ⟨r, rfl, h⟩
  · exact ⟨_, h.blanks ht hne, .between ts⟩

/-- Between tokens, blanks change nothing at all. -/
theorem foldlM_blanks {t : Text} (ht : ∀ c ∈ t, isSpace c = true) (ts : List Token) :
    t.foldlM step ⟨ts, .between⟩ = some ⟨ts, .between⟩ := by
  by_cases hne : t = []
  · subst hne; rfl
  · exact (Settles.between ts).blanks ht hne

theorem Settles.finish {r : Reading} {ts : List Token} (h : Settles r ts) :
    Token.finish r = some ts.reverse := by
  cases h with
  | between => rfl
  | bare ts hword => simp [Token.finish, hword]

end Token

namespace Layout

open Token (Settles)

/-- The blanks that a layout puts before an item are blanks of documents. -/
theorem isSpace_newLine {l : Layout} (hl : l.WellFormed) {indent : Text}
    (hindent : l.indent = some indent) (pen : Pen) :
    ∀ c ∈ l.newLine indent pen, Token.isSpace c = true := by
  intro c hc
  rcases List.mem_append.mp hc with hc | hc
  · cases hend : l.lineEnding with
    | lf => rw [hend] at hc; simp [LineEnding.text] at hc; subst hc; rfl
    | crlf =>
      rw [hend] at hc
      simp only [LineEnding.text, List.mem_cons, List.not_mem_nil, or_false] at hc
      rcases hc with rfl | rfl <;> rfl
  · obtain ⟨piece, hpiece, hc⟩ := List.mem_flatten.mp hc
    rw [(List.mem_replicate.mp hpiece).2] at hc
    rcases hl.1 indent hindent c hc with rfl | rfl <;> rfl

/-- A state in which items can start or go on. -/
def Ready (first : Bool) (r : Token.Reading) (ts : List Token) : Prop :=
  if first then r = ⟨ts, .between⟩ else Settles r ts

theorem Ready.settles {first : Bool} {r : Token.Reading} {ts : List Token} (h : Ready first r ts) :
    Settles r ts := by
  cases first with
  | true => rw [Ready, if_pos rfl] at h; exact h ▸ .between ts
  | false => exact h

/-- What comes before an item is a comma, unless it is the first. -/
theorem foldlM_separate {l : Layout} (hl : l.WellFormed) {first : Bool} {r : Token.Reading}
    {ts : List Token} (h : Ready first r ts) (pen : Pen) :
    (l.separate first pen).1.foldlM Token.step r =
      some ⟨(if first then [] else [.comma]) ++ ts, .between⟩ := by
  have hcomma (h : Settles r ts) : Token.step r ',' = some ⟨.comma :: ts, .between⟩ := h.mark rfl
  cases hindent : l.indent with
  | none =>
    cases first with
    | true =>
      rw [Ready, if_pos rfl] at h
      simp [separate, hindent, h]
    | false =>
      have hspace : Token.step ⟨.comma :: ts, .between⟩ ' ' = some ⟨.comma :: ts, .between⟩ := rfl
      cases hsep : l.spacedSeparators <;>
        simp [separate, hindent, hsep, hcomma h, hspace]
  | some indent =>
    have hblank := Token.foldlM_blanks (isSpace_newLine hl hindent pen)
    cases first with
    | true =>
      rw [Ready, if_pos rfl] at h
      simp [separate, hindent, h, hblank]
    | false =>
      simp [separate, hindent, hcomma h, hblank]

/-- The key of a member and what follows it, up to the value. -/
theorem foldlM_key (l : Layout) (key : Text) (ts : List Token) :
    (Literal.write l.asciiOnly key ++ l.keySeparator).foldlM Token.step ⟨ts, .between⟩ =
      some ⟨.colon :: .literal (key.flatMap (Literal.piecesOf l.asciiOnly)) :: ts, .between⟩ := by
  rw [List.foldlM_append, Token.foldlM_literal, Option.bind_eq_bind, Option.bind_some]
  unfold keySeparator
  split <;> rfl

/-- A closing bracket, with what the layout puts before it. -/
theorem foldlM_closeBracket {l : Layout} (hl : l.WellFormed) {r : Token.Reading} {ts : List Token}
    (h : Settles r ts) {bracket : Char} {token : Token} (hb : Token.ofMark? bracket = some token)
    (pen : Pen) :
    (l.closeBracket bracket pen).1.foldlM Token.step r = some ⟨token :: ts, .between⟩ := by
  cases hindent : l.indent with
  | none => simp [closeBracket, hindent, h.mark hb]
  | some indent =>
    cases hvalue : pen.hasValue with
    | false => simp [closeBracket, hindent, hvalue, h.mark hb]
    | true =>
      obtain ⟨r', hr', h'⟩ := h.blanks' (isSpace_newLine hl hindent ⟨pen.depth - 1, true⟩)
      simp [closeBracket, hindent, hvalue, hr', h'.mark hb]

/-- What two strokes write, one after the other. -/
theorem followedBy_fst (a b : Stroke) (pen : Pen) :
    (a.followedBy b pen).1 = (a pen).1 ++ (b (a pen).2).1 := rfl

theorem Stroke.text_apply (t : Text) (pen : Pen) : Stroke.text t pen = (t, pen) := rfl

mutual

/-- **A written value is read as its tokens.** -/
theorem foldlM_writeValue {l : Layout} (hl : l.WellFormed) :
    ∀ (v : Json), v.WellFormed → ∀ (pen : Pen) (ts : List Token),
      ∃ r, (l.writeValue v pen).1.foldlM Token.step ⟨ts, .between⟩ = some r ∧
        Settles r ((v.tokensOf l.asciiOnly).reverse ++ ts)
  | .null, _, _, ts => ⟨_, rfl, .bare ts rfl⟩
  | .boolean true, _, _, ts => ⟨_, rfl, .bare ts rfl⟩
  | .boolean false, _, _, ts => ⟨_, rfl, .bare ts rfl⟩
  | .number n, hv, _, ts =>
    ⟨_, Token.foldlM_word (Token.write_ne_nil hv) (fun _ hc => Token.isBare_of_mem_write hv hc) ts,
      .bare ts (by rw [List.reverse_reverse]; exact Token.ofBare?_write hv)⟩
  | .string t, _, _, ts => ⟨_, Token.foldlM_literal l.asciiOnly t ts, .between _⟩
  | .array items, hv, pen, ts => by
    have hopen : Token.step ⟨ts, .between⟩ '[' = some ⟨.openArray :: ts, .between⟩ := rfl
    obtain ⟨r, hr, hsettles⟩ := foldlM_writeItems hl items hv true (openBracket '[' pen).2
      (r := ⟨.openArray :: ts, .between⟩) (by rw [Ready, if_pos rfl])
    refine ⟨_, ?_, .between _⟩
    rw [writeValue, followedBy_fst, followedBy_fst, List.foldlM_append, List.foldlM_append]
    rw [show (openBracket '[' pen).1 = ['['] from rfl, List.foldlM_cons, hopen]
    simp only [Option.bind_eq_bind, Option.bind_some, List.foldlM_nil, Option.pure_def, hr,
      foldlM_closeBracket hl hsettles (show Token.ofMark? ']' = some .closeArray from rfl)]
    simp [Json.tokensOf]
  | .object members, hv, pen, ts => by
    have hopen : Token.step ⟨ts, .between⟩ '{' = some ⟨.openObject :: ts, .between⟩ := rfl
    obtain ⟨r, hr, hsettles⟩ := foldlM_writeMembers hl members hv.2.2 true (openBracket '{' pen).2
      (r := ⟨.openObject :: ts, .between⟩) (by rw [Ready, if_pos rfl])
    refine ⟨_, ?_, .between _⟩
    rw [writeValue, followedBy_fst, followedBy_fst, List.foldlM_append, List.foldlM_append]
    rw [show (openBracket '{' pen).1 = ['{'] from rfl, List.foldlM_cons, hopen]
    simp only [Option.bind_eq_bind, Option.bind_some, List.foldlM_nil, Option.pure_def, hr,
      foldlM_closeBracket hl hsettles (show Token.ofMark? '}' = some .closeObject from rfl)]
    simp [Json.tokensOf]

/-- Written items are read as their tokens. -/
theorem foldlM_writeItems {l : Layout} (hl : l.WellFormed) :
    ∀ (items : List Json), Json.WellFormedItems items → ∀ (first : Bool) (pen : Pen)
      {r : Token.Reading} {ts : List Token}, Ready first r ts →
      ∃ r', (l.writeItems first items pen).1.foldlM Token.step r = some r' ∧
        Settles r' ((Json.tokensOfItems l.asciiOnly first items).reverse ++ ts)
  | [], _, _, _, r, _, h => ⟨r, rfl, h.settles⟩
  | v :: rest, hv, first, pen, r, ts, h => by
    obtain ⟨r₁, hr₁, h₁⟩ := foldlM_writeValue hl v hv.1 (l.separate first pen).2
      ((if first then [] else [.comma]) ++ ts)
    obtain ⟨r₂, hr₂, h₂⟩ := foldlM_writeItems hl rest hv.2 false
      (endValue (l.writeValue v (l.separate first pen).2).2).2 (r := r₁) h₁
    refine ⟨r₂, ?_, ?_⟩
    · rw [writeItems, followedBy_fst, followedBy_fst, followedBy_fst, List.foldlM_append,
        List.foldlM_append, foldlM_separate hl h, Option.bind_eq_bind, Option.bind_some,
        List.foldlM_append, hr₁]
      exact hr₂
    · cases first <;> simpa [Json.tokensOfItems] using h₂

/-- Written members are read as their tokens. -/
theorem foldlM_writeMembers {l : Layout} (hl : l.WellFormed) :
    ∀ (members : List (Text × Json)), Json.WellFormedMembers members → ∀ (first : Bool) (pen : Pen)
      {r : Token.Reading} {ts : List Token}, Ready first r ts →
      ∃ r', (l.writeMembers first members pen).1.foldlM Token.step r = some r' ∧
        Settles r' ((Json.tokensOfMembers l.asciiOnly first members).reverse ++ ts)
  | [], _, _, _, r, _, h => ⟨r, rfl, h.settles⟩
  | (key, v) :: rest, hv, first, pen, r, ts, h => by
    obtain ⟨r₁, hr₁, h₁⟩ := foldlM_writeValue hl v hv.1 (l.separate first pen).2
      (.colon :: .literal (key.flatMap (Literal.piecesOf l.asciiOnly)) ::
        ((if first then [] else [.comma]) ++ ts))
    obtain ⟨r₂, hr₂, h₂⟩ := foldlM_writeMembers hl rest hv.2 false
      (endValue (l.writeValue v (l.separate first pen).2).2).2 (r := r₁) h₁
    refine ⟨r₂, ?_, ?_⟩
    · rw [writeMembers, followedBy_fst, followedBy_fst, followedBy_fst, followedBy_fst,
        List.foldlM_append, List.foldlM_append, foldlM_separate hl h, Option.bind_eq_bind,
        Option.bind_some, Stroke.text_apply, List.foldlM_append, foldlM_key, Option.bind_eq_bind,
        Option.bind_some, List.foldlM_append, hr₁]
      exact hr₂
    · cases first <;> simpa [Json.tokensOfMembers] using h₂

end

end Layout

/-! ## From tokens to the value -/

namespace Members

/-- A key that is not there is set at the end. -/
theorem set_of_not_mem {key : Text} {members : Members} (h : key ∉ members.map Prod.fst)
    (value : Json) : set key value members = members ++ [(key, value)] := by
  induction members with
  | nil => rfl
  | cons m rest ih =>
    obtain ⟨k, v⟩ := m
    simp only [List.map_cons, List.mem_cons, not_or] at h
    rw [set, if_neg (Ne.symm h.1), ih h.2, List.cons_append]

end Members

namespace Json

open Building (step)

/-- A value starts with a token that ends no array. -/
theorem tokensOf_eq_cons (ascii : Bool) (v : Json) :
    ∃ token rest, v.tokensOf ascii = token :: rest ∧ token ≠ .closeArray := by
  cases v <;> exact ⟨_, _, rfl, by simp⟩

theorem startKey_literal (stack : List Frame) (members : Members) (ascii : Bool) (key : Text) :
    Building.startKey stack members (.literal (key.flatMap (Literal.piecesOf ascii))) =
      some ⟨stack, .colon members key⟩ := by
  simp [Building.startKey, Literal.text?_flatMap_piecesOf]

theorem startFirstKey_literal (stack : List Frame) (ascii : Bool) {key : Text}
    (h : key ≠ Number.longFormKey) :
    Building.startFirstKey stack (.literal (key.flatMap (Literal.piecesOf ascii))) =
      some ⟨stack, .colon [] key⟩ := by
  simp [Building.startFirstKey, Literal.text?_flatMap_piecesOf, h]

mutual

/-- **The tokens of a value make the value**, wherever it stands, if it is not nested too deep. -/
theorem foldlM_tokensOf (ascii : Bool) :
    ∀ (v : Json), v.WellFormed → ∀ (stack : List Frame), stack.length + v.depth ≤ nestingLimit →
      (v.tokensOf ascii).foldlM step ⟨stack, .value⟩ = some ⟨stack, .complete v⟩
  | .null, _, _, _ => rfl
  | .boolean _, _, _, _ => rfl
  | .number _, _, _, _ => rfl
  | .string t, _, stack, _ => by
    simp [tokensOf, step, Building.start, Literal.text?_flatMap_piecesOf]
  | .array [], _, stack, hd => by
    have hopen : stack.length < nestingLimit := by simp only [depth] at hd; omega
    simp [tokensOf, tokensOfItems, step, Building.start, hopen]
  | .array (v :: rest), hv, stack, hd => by
    simp only [depth, depthItems] at hd
    have hopen : stack.length < nestingLimit := by omega
    have hvalue := foldlM_tokensOf ascii v hv.1 (.array [] :: stack)
      (by simp only [List.length_cons]; omega)
    have hrest := foldlM_tokensOfItems ascii rest hv.2 stack [] v (by omega)
    -- the first item starts like any value of the array, since it does not end it
    obtain ⟨token, tokens, htokens, hne⟩ := tokensOf_eq_cons ascii v
    have hfirst : step ⟨stack, .firstItem⟩ token = step ⟨.array [] :: stack, .value⟩ token := by
      simp [step, hne]
    rw [tokensOf, tokensOfItems, if_pos rfl, List.nil_append, List.foldlM_cons]
    rw [show step ⟨stack, .value⟩ .openArray = some ⟨stack, .firstItem⟩ by
      simp [step, Building.start, hopen], Option.bind_eq_bind, Option.bind_some, List.append_assoc,
      List.foldlM_append]
    have hsame : (v.tokensOf ascii).foldlM step ⟨stack, .firstItem⟩ =
        (v.tokensOf ascii).foldlM step ⟨.array [] :: stack, .value⟩ := by
      rw [htokens, List.foldlM_cons, List.foldlM_cons, hfirst]
    rw [hsame, hvalue, Option.bind_eq_bind, Option.bind_some, hrest]
    rfl
  | .object [], _, stack, hd => by
    have hopen : stack.length < nestingLimit := by simp only [depth] at hd; omega
    simp [tokensOf, tokensOfMembers, step, Building.start, hopen]
  | .object ((key, v) :: rest), hv, stack, hd => by
    simp only [depth, depthMembers] at hd
    have hopen : stack.length < nestingLimit := by omega
    obtain ⟨hnodup, hfirst, hmembers⟩ := hv
    -- a first key that is the mark of a long numeral would be read as one
    have hkey : key ≠ Number.longFormKey := by simpa using hfirst
    have hvalue := foldlM_tokensOf ascii v hmembers.1 (.object [] key :: stack)
      (by simp only [List.length_cons]; omega)
    have hrest := foldlM_tokensOfMembers ascii rest hmembers.2 stack [] key v hnodup (by omega)
    have hopened : step ⟨stack, .value⟩ .openObject = some ⟨stack, .firstKey⟩ := by
      simp [step, Building.start, hopen]
    have hliteral : step ⟨stack, .firstKey⟩ (.literal (key.flatMap (Literal.piecesOf ascii))) =
        some ⟨stack, .colon [] key⟩ := by
      simpa [step] using startFirstKey_literal stack ascii hkey
    have hcolon : step ⟨stack, .colon [] key⟩ .colon = some ⟨.object [] key :: stack, .value⟩ := rfl
    simp only [tokensOf, tokensOfMembers, if_true, List.nil_append, List.cons_append,
      List.append_assoc, List.foldlM_cons, hopened, hliteral, hcolon, Option.bind_eq_bind,
      Option.bind_some]
    rw [List.foldlM_append, hvalue, Option.bind_eq_bind, Option.bind_some, hrest]
    rfl

/-- The tokens of the items after a complete one, up to the end of the array. -/
theorem foldlM_tokensOfItems (ascii : Bool) :
    ∀ (rest : List Json), WellFormedItems rest → ∀ (stack : List Frame) (items : List Json)
      (v : Json), stack.length + depthItems rest < nestingLimit →
      (tokensOfItems ascii false rest ++ [Token.closeArray]).foldlM step
        ⟨.array items :: stack, .complete v⟩ =
          some ⟨stack, .complete (.array (items.reverse ++ v :: rest))⟩
  | [], _, stack, items, v, _ => by
    simp [tokensOfItems, step, Building.close]
  | w :: rest, hw, stack, items, v, hd => by
    simp only [depthItems] at hd
    have hvalue := foldlM_tokensOf ascii w hw.1 (.array (v :: items) :: stack)
      (by simp only [List.length_cons]; omega)
    have hrest := foldlM_tokensOfItems ascii rest hw.2 stack (v :: items) w (by omega)
    have hcomma : step ⟨.array items :: stack, .complete v⟩ .comma =
        some ⟨.array (v :: items) :: stack, .value⟩ := rfl
    rw [tokensOfItems]
    simp only [Bool.false_eq_true, if_false, List.cons_append, List.nil_append,
      List.append_assoc, List.foldlM_cons, hcomma, Option.bind_eq_bind, Option.bind_some]
    rw [List.foldlM_append, hvalue, Option.bind_eq_bind, Option.bind_some, hrest]
    simp

/-- The tokens of the members after a complete one, up to the end of the object. -/
theorem foldlM_tokensOfMembers (ascii : Bool) :
    ∀ (rest : List (Text × Json)), WellFormedMembers rest → ∀ (stack : List Frame)
      (members : Members) (key : Text) (v : Json),
      ((members ++ (key, v) :: rest).map Prod.fst).Nodup →
      stack.length + depthMembers rest < nestingLimit →
      (tokensOfMembers ascii false rest ++ [Token.closeObject]).foldlM step
        ⟨.object members key :: stack, .complete v⟩ =
          some ⟨stack, .complete (.object (members ++ (key, v) :: rest))⟩
  | [], _, stack, members, key, v, hnodup, _ => by
    have hkey : key ∉ members.map Prod.fst := by
      simp only [List.map_append, List.map_cons, List.map_nil] at hnodup
      exact fun h => (List.nodup_append.mp hnodup).2.2 key h key List.mem_cons_self rfl
    simp [tokensOfMembers, step, Building.close, Members.set_of_not_mem hkey]
  | (key', w) :: rest, hw, stack, members, key, v, hnodup, hd => by
    simp only [depthMembers] at hd
    have hkey : key ∉ members.map Prod.fst := by
      simp only [List.map_append, List.map_cons] at hnodup
      exact fun h => (List.nodup_append.mp hnodup).2.2 key h key List.mem_cons_self rfl
    have hvalue := foldlM_tokensOf ascii w hw.1 (.object (members ++ [(key, v)]) key' :: stack)
      (by simp only [List.length_cons]; omega)
    have hrest := foldlM_tokensOfMembers ascii rest hw.2 stack (members ++ [(key, v)]) key' w
      (by simpa using hnodup) (by omega)
    -- the key that is complete is new, so its member goes behind the others
    have hcomma : step ⟨.object members key :: stack, .complete v⟩ .comma =
        some ⟨stack, .key (members ++ [(key, v)])⟩ := by
      simp [step, Building.close, Members.set_of_not_mem hkey]
    have hliteral : step ⟨stack, .key (members ++ [(key, v)])⟩
        (.literal (key'.flatMap (Literal.piecesOf ascii))) =
          some ⟨stack, .colon (members ++ [(key, v)]) key'⟩ := by
      simpa [step] using startKey_literal stack (members ++ [(key, v)]) ascii key'
    have hcolon : step ⟨stack, .colon (members ++ [(key, v)]) key'⟩ .colon =
        some ⟨.object (members ++ [(key, v)]) key' :: stack, .value⟩ := rfl
    rw [tokensOfMembers]
    simp only [Bool.false_eq_true, if_false, List.cons_append, List.nil_append,
      List.append_assoc, List.foldlM_cons, hcomma, hliteral, hcolon, Option.bind_eq_bind,
      Option.bind_some]
    rw [List.foldlM_append, hvalue, Option.bind_eq_bind, Option.bind_some, hrest]
    simp

end

end Json

/-! ## Documents -/

namespace Layout

open Token (Settles)

/-- The blanks at the end of a document. -/
theorem isSpace_lineEnding (e : LineEnding) : ∀ c ∈ e.text, Token.isSpace c = true :=
  List.all_eq_true.mp (by cases e <;> decide)

/-- The text that a document has without the byte order mark that its layout may put in front. -/
def body (l : Layout) (v : Json) : Text :=
  (l.writeValue v ⟨0, false⟩).1 ++ (if l.finalLineEnd then l.lineEnding.text else [])

theorem write_eq_mark_body (l : Layout) (v : Json) :
    l.write v = (if l.byteOrderMark then [markChar] else []) ++ l.body v := by
  rw [write, body, List.append_assoc]

/-- **A document is read back as the value that was written.** -/
theorem read?_body {l : Layout} (hl : l.WellFormed) {v : Json} (hv : v.WellFormed)
    (hd : v.depth ≤ Json.nestingLimit) : Json.read? (l.body v) = some v := by
  obtain ⟨r, hr, hsettles⟩ := foldlM_writeValue hl v hv ⟨0, false⟩ []
  obtain ⟨r', hr', hsettles'⟩ : ∃ r', (l.body v).foldlM Token.step ⟨[], .between⟩ = some r' ∧
      Settles r' ((v.tokensOf l.asciiOnly).reverse ++ []) := by
    rw [body, List.foldlM_append, hr, Option.bind_eq_bind, Option.bind_some]
    refine hsettles.blanks' fun c hc => ?_
    split at hc
    · exact isSpace_lineEnding l.lineEnding c hc
    · exact absurd hc List.not_mem_nil
  have htokens : Token.ofText? (l.body v) = some (v.tokensOf l.asciiOnly) := by
    rw [Token.ofText?, hr', Option.bind_some, hsettles'.finish]
    simp
  rw [Json.read?, htokens, Option.bind_some, Json.ofTokens?,
    Json.foldlM_tokensOf l.asciiOnly v hv [] (by simpa using hd), Option.bind_some]
  rfl

end Layout
end NotebookTidy
