import NotebookTidy.Json.Reader

/-!
# What is read is the value of a document

Every value that `Json.read?` gives is well formed and no deeper than the limit: its numbers are
numerals, its objects have no key twice and none starts with the key of a number's long form.  So
whatever has been read can be written and read again.

The invariant is `Json.Building.Sound`: what the open arrays and objects have got so far is sound,
and there is still room for it below them.  Each token keeps it (`Sound.step`).
-/

namespace NotebookTidy

/-! ## Numerals -/

namespace Number

theorem wellFormed_of_exponentOfText? {t : Text} {e : Option Exponent}
    (h : exponentOfText? t = some e) : ∀ x ∈ e, x.WellFormed := by
  cases t with
  | nil =>
    rw [exponentOfText?, Option.some.injEq] at h
    subst h
    exact fun x hx => nomatch hx
  | cons c rest =>
    rw [exponentOfText?] at h
    split at h
    · obtain ⟨x, hx, rfl⟩ := Option.map_eq_some_iff.mp h
      intro y hy
      rw [Option.mem_some_iff] at hy
      subst hy
      simp only [Exponent.ofText?, Option.ite_none_right_eq_some, Option.some.injEq] at hx
      obtain ⟨hwf, rfl⟩ := hx
      exact hwf
    · cases h

theorem wellFormed_of_fractionOfText? {t fraction : Text} {e : Option Exponent}
    (h : fractionOfText? t = some (fraction, e)) :
    fraction.all Decimal.isDigit = true ∧ ∀ x ∈ e, x.WellFormed := by
  unfold fractionOfText? at h
  split at h
  · simp only at h
    split at h
    · cases h
    · obtain ⟨x, hx, heq⟩ := Option.map_eq_some_iff.mp h
      obtain ⟨rfl, rfl⟩ := Prod.mk.inj heq
      exact ⟨List.all_takeWhile, wellFormed_of_exponentOfText? hx⟩
  · obtain ⟨x, hx, heq⟩ := Option.map_eq_some_iff.mp h
    obtain ⟨rfl, rfl⟩ := Prod.mk.inj heq
    exact ⟨rfl, wellFormed_of_exponentOfText? hx⟩

theorem wellFormed_of_unsignedOfText? {negative : Bool} {t : Text} {n : Number}
    (h : unsignedOfText? negative t = some n) : n.WellFormed := by
  simp only [unsignedOfText?] at h
  split at h
  · next hwhole =>
    obtain ⟨⟨fraction, e⟩, hf, rfl⟩ := Option.map_eq_some_iff.mp h
    exact ⟨hwhole, wellFormed_of_fractionOfText? hf⟩
  · cases h

/-- **What is read as a number is a numeral.** -/
theorem wellFormed_of_ofText? {t : Text} {n : Number} (h : ofText? t = some n) :
    n.WellFormed := by
  unfold ofText? at h
  split at h <;> exact wellFormed_of_unsignedOfText? h

end Number

/-! ## Tokens -/

namespace Token

/-- A number among the tokens is a numeral. -/
def Sound : Token → Prop
  | .number n => n.WellFormed
  | _ => True

theorem sound_of_ofBare? {word : Text} {token : Token} (h : ofBare? word = some token) :
    token.Sound := by
  unfold ofBare? at h
  split at h
  · exact Option.some.inj h ▸ trivial
  · split at h
    · exact Option.some.inj h ▸ trivial
    · split at h
      · exact Option.some.inj h ▸ trivial
      · obtain ⟨n, hn, rfl⟩ := Option.map_eq_some_iff.mp h
        exact Number.wellFormed_of_ofText? hn

theorem sound_of_ofMark? {c : Char} {token : Token} (h : ofMark? c = some token) :
    token.Sound := by
  unfold ofMark? at h
  split at h <;> first | exact Option.some.inj h ▸ trivial | cases h

theorem sound_of_delimiter? {ts : List Token} {c : Char} {r : Reading}
    (h : ∀ token ∈ ts, token.Sound) (hr : delimiter? ts c = some r) :
    ∀ token ∈ r.tokens, token.Sound := by
  unfold delimiter? at hr
  split at hr
  · exact Option.some.inj hr ▸ h
  · split at hr
    · exact Option.some.inj hr ▸ h
    · obtain ⟨token, htoken, rfl⟩ := Option.map_eq_some_iff.mp hr
      exact List.forall_mem_cons.mpr ⟨sound_of_ofMark? htoken, h⟩

theorem sound_step {r r' : Reading} {c : Char} (h : ∀ token ∈ r.tokens, token.Sound)
    (hr : step r c = some r') : ∀ token ∈ r'.tokens, token.Sound := by
  obtain ⟨ts, place⟩ := r
  cases place with
  | between =>
    simp only [step] at hr
    split at hr
    · next next hnext => exact Option.some.inj hr ▸ sound_of_delimiter? h hnext
    · exact Option.some.inj hr ▸ h
  | bare run =>
    simp only [step] at hr
    split at hr
    · obtain ⟨token, htoken, hnext⟩ := Option.bind_eq_some_iff.mp hr
      exact sound_of_delimiter? (List.forall_mem_cons.mpr ⟨sound_of_ofBare? htoken, h⟩) hnext
    · exact Option.some.inj hr ▸ h
  | quoted pieces =>
    simp only [step] at hr
    split at hr
    · exact Option.some.inj hr ▸ List.forall_mem_cons.mpr ⟨trivial, h⟩
    · split at hr
      · exact Option.some.inj hr ▸ h
      · split at hr
        · cases hr
        · exact Option.some.inj hr ▸ h
  | escaped pieces =>
    simp only [step] at hr
    split at hr
    · exact Option.some.inj hr ▸ h
    · obtain ⟨d, _, rfl⟩ := Option.map_eq_some_iff.mp hr
      exact h
  | unit pieces digits value =>
    simp only [step] at hr
    obtain ⟨d, _, rfl⟩ := Option.map_eq_some_iff.mp hr
    split <;> exact h

theorem sound_foldlM {t : Text} {r r' : Reading} (h : ∀ token ∈ r.tokens, token.Sound)
    (hr : t.foldlM step r = some r') : ∀ token ∈ r'.tokens, token.Sound := by
  induction t generalizing r with
  | nil =>
    rw [List.foldlM_nil, Option.pure_def, Option.some.injEq] at hr
    exact hr ▸ h
  | cons c t ih =>
    rw [List.foldlM_cons, Option.bind_eq_bind] at hr
    obtain ⟨r₁, h₁, hr⟩ := Option.bind_eq_some_iff.mp hr
    exact ih (sound_step h h₁) hr

/-- **The numbers among the tokens of a document are numerals.** -/
theorem sound_of_ofText? {t : Text} {ts : List Token} (h : ofText? t = some ts) :
    ∀ token ∈ ts, token.Sound := by
  obtain ⟨⟨tokens, place⟩, hr, hfinish⟩ := Option.bind_eq_some_iff.mp h
  have htokens := sound_foldlM (r := ⟨[], .between⟩) (fun _ hx => nomatch hx) hr
  cases place with
  | between =>
    rw [finish, Option.some.injEq] at hfinish
    exact fun token htoken => htokens token (List.mem_reverse.mp (hfinish ▸ htoken))
  | bare run =>
    obtain ⟨word, hword, rfl⟩ := Option.map_eq_some_iff.mp hfinish
    exact fun token htoken => List.forall_mem_cons.mpr ⟨sound_of_ofBare? hword, htokens⟩ token
      (List.mem_reverse.mp htoken)
  | _ => cases hfinish

end Token

/-! ## Members -/

namespace Members

theorem keys_set (key : Text) (value : Json) (members : Members) :
    (set key value members).map Prod.fst =
      if key ∈ members.map Prod.fst then members.map Prod.fst else members.map Prod.fst ++ [key] := by
  induction members with
  | nil => rfl
  | cons m rest ih =>
    obtain ⟨k, v⟩ := m
    rw [set]
    by_cases hk : k = key
    · simp [hk]
    · by_cases hmem : key ∈ rest.map Prod.fst
      · simp [hk, ih, hmem]
      · simp [hk, ih, hmem, Ne.symm hk]

theorem nodup_set {members : Members} (h : (members.map Prod.fst).Nodup) (key : Text)
    (value : Json) : ((set key value members).map Prod.fst).Nodup := by
  rw [keys_set]
  split
  · exact h
  · next hnot =>
    refine List.nodup_append.mpr ⟨h, List.pairwise_singleton _ key, ?_⟩
    intro k hk k' hk' heq
    rw [List.mem_singleton] at hk'
    exact hnot (hk' ▸ heq ▸ hk)

theorem wellFormed_set {members : Members} (h : Json.WellFormedMembers members) (key : Text)
    {value : Json} (hv : value.WellFormed) : Json.WellFormedMembers (set key value members) := by
  induction members with
  | nil => exact ⟨hv, trivial⟩
  | cons m rest ih =>
    obtain ⟨k, v⟩ := m
    rw [set]
    split
    · exact ⟨hv, h.2⟩
    · exact ⟨h.1, ih h.2⟩

theorem depth_set (key : Text) (value : Json) (members : Members) :
    Json.depthMembers (set key value members) ≤ max (Json.depthMembers members) value.depth := by
  induction members with
  | nil => simp [set, Json.depthMembers]
  | cons m rest ih =>
    obtain ⟨k, v⟩ := m
    rw [set]
    split
    · simp only [Json.depthMembers]; omega
    · simp only [Json.depthMembers]; omega

end Members

/-! ## Building -/

namespace Json

/-- Members of an object that stands in so many arrays and objects. -/
structure SoundMembers (above : Nat) (members : Members) : Prop where
  nodup : (members.map Prod.fst).Nodup
  plain : (members.map Prod.fst).head? ≠ some Number.longFormKey
  values : WellFormedMembers members
  room : above + 1 + depthMembers members ≤ nestingLimit

theorem SoundMembers.set {above : Nat} {members : Members} (h : SoundMembers above members)
    {key : Text} (hkey : members = [] → key ≠ Number.longFormKey) {value : Json}
    (hv : value.WellFormed) (hd : above + 1 + value.depth ≤ nestingLimit) :
    SoundMembers above (Members.set key value members) where
  nodup := Members.nodup_set h.nodup key value
  plain := by
    rw [Members.keys_set]
    split
    · exact h.plain
    · cases hm : members with
      | nil => simpa using hkey hm
      | cons m rest =>
        have hplain := h.plain
        rw [hm] at hplain
        simpa using hplain
  values := Members.wellFormed_set h.values key hv
  room := by
    have hroom := h.room
    have hset := Members.depth_set key value members
    omega

/-- A frame with so many frames below it. -/
def Frame.Sound (above : Nat) : Frame → Prop
  | .array items => WellFormedItems items ∧ above + 1 + depthItems items ≤ nestingLimit
  | .object members key => SoundMembers above members ∧ (members = [] → key ≠ Number.longFormKey)

/-- The open arrays and objects are sound. -/
def SoundStack : List Frame → Prop
  | [] => True
  | frame :: stack => frame.Sound stack.length ∧ SoundStack stack

theorem SoundStack.length_le {stack : List Frame} (h : SoundStack stack) :
    stack.length ≤ nestingLimit := by
  cases stack with
  | nil => exact Nat.zero_le _
  | cons frame stack =>
    rw [List.length_cons]
    cases frame with
    | array items => have := h.1.2; omega
    | object members key => have := h.1.1.room; omega

/-- What may come next is sound, in so many arrays and objects. -/
def Expectation.Sound (above : Nat) : Expectation → Prop
  | .value => True
  | .firstItem => above < nestingLimit
  | .firstKey => above < nestingLimit
  | .key members => SoundMembers above members ∧ members ≠ []
  | .colon members name => SoundMembers above members ∧ (members = [] → name ≠ Number.longFormKey)
  | .numeralColon => True
  | .numeral => True
  | .numeralEnd n => n.WellFormed
  | .complete v => v.WellFormed ∧ above + v.depth ≤ nestingLimit

theorem wellFormedItems_append {items more : List Json} (h : WellFormedItems items)
    (hmore : WellFormedItems more) : WellFormedItems (items ++ more) := by
  induction items with
  | nil => exact hmore
  | cons v rest ih => exact ⟨h.1, ih h.2⟩

theorem wellFormedItems_reverse {items : List Json} (h : WellFormedItems items) :
    WellFormedItems items.reverse := by
  induction items with
  | nil => exact h
  | cons v rest ih =>
    rw [List.reverse_cons]
    exact wellFormedItems_append (ih h.2) ⟨h.1, trivial⟩

theorem depthItems_append (items more : List Json) :
    depthItems (items ++ more) = max (depthItems items) (depthItems more) := by
  induction items with
  | nil => simp [depthItems]
  | cons v rest ih => simp only [List.cons_append, depthItems, ih]; omega

theorem depthItems_reverse (items : List Json) : depthItems items.reverse = depthItems items := by
  induction items with
  | nil => rfl
  | cons v rest ih => simp only [List.reverse_cons, depthItems_append, ih, depthItems]; omega

namespace Building

/-- The stack and what may come next are sound. -/
def Sound (b : Building) : Prop := SoundStack b.stack ∧ b.next.Sound b.stack.length

theorem sound_start {stack : List Frame} (h : SoundStack stack) {token : Token}
    (ht : token.Sound) {b : Building} (hb : start stack token = some b) : b.Sound := by
  have hlen := h.length_le
  cases token with
  | null => exact Option.some.inj hb ▸ ⟨h, trivial, hlen⟩
  | boolean value => exact Option.some.inj hb ▸ ⟨h, trivial, hlen⟩
  | number n => exact Option.some.inj hb ▸ ⟨h, ht, hlen⟩
  | literal pieces =>
    obtain ⟨t, _, rfl⟩ := Option.map_eq_some_iff.mp hb
    exact ⟨h, trivial, hlen⟩
  | openArray =>
    rw [start] at hb
    split at hb
    · next hroom => exact Option.some.inj hb ▸ ⟨h, hroom⟩
    · cases hb
  | openObject =>
    rw [start] at hb
    split at hb
    · next hroom => exact Option.some.inj hb ▸ ⟨h, hroom⟩
    · cases hb
  | _ => cases hb

theorem sound_close {stack : List Frame} (h : SoundStack stack) {value : Json}
    (hv : value.WellFormed) (hd : stack.length + value.depth ≤ nestingLimit) {token : Token}
    {b : Building} (hb : close value stack token = some b) : b.Sound := by
  unfold close at hb
  split at hb
  · next items stack =>
    simp only [List.length_cons] at hd
    refine Option.some.inj hb ▸ ⟨⟨⟨⟨hv, h.1.1⟩, ?_⟩, h.2⟩, trivial⟩
    have := h.1.2
    simp only [depthItems]
    omega
  · next items stack =>
    simp only [List.length_cons] at hd
    refine Option.some.inj hb ▸ ⟨h.2, wellFormedItems_reverse ⟨hv, h.1.1⟩, ?_⟩
    have := h.1.2
    simp only [depth, depthItems_reverse, depthItems]
    omega
  · next members key stack =>
    simp only [List.length_cons] at hd
    refine Option.some.inj hb ▸ ⟨h.2, h.1.1.set h.1.2 hv (by omega), ?_⟩
    intro hnil
    have := Members.keys_set key value members
    rw [hnil] at this
    split at this
    · next hmem => rw [← this] at hmem; cases hmem
    · exact absurd this.symm (by simp)
  · next members key stack =>
    simp only [List.length_cons] at hd
    have hset := h.1.1.set h.1.2 hv (by omega)
    refine Option.some.inj hb ▸ ⟨h.2, ⟨hset.nodup, hset.plain, hset.values⟩, ?_⟩
    have := hset.room
    simp only [depth]
    omega
  · cases hb

/-- **Every token keeps what has been built sound.** -/
theorem Sound.step {b b' : Building} (h : b.Sound) {token : Token} (ht : token.Sound)
    (hb : b.step token = some b') : b'.Sound := by
  obtain ⟨stack, next⟩ := b
  obtain ⟨hstack, hnext⟩ := h
  cases next with
  | value => exact sound_start hstack ht hb
  | firstItem =>
    simp only [Building.step] at hb
    split at hb
    · exact Option.some.inj hb ▸ ⟨hstack, trivial, hnext⟩
    · have hitems : SoundStack (.array [] :: stack) := ⟨⟨trivial, hnext⟩, hstack⟩
      exact sound_start hitems ht hb
  | firstKey =>
    simp only [Building.step] at hb
    split at hb
    · exact Option.some.inj hb ▸ ⟨hstack, ⟨.nil, by simp, trivial⟩, hnext⟩
    · cases token with
      | literal pieces =>
        obtain ⟨key, _, rfl⟩ := Option.map_eq_some_iff.mp hb
        refine ⟨hstack, ?_⟩
        by_cases hkey : key = Number.longFormKey
        · rw [if_pos hkey]; exact trivial
        · rw [if_neg hkey]
          exact ⟨⟨.nil, by simp, trivial, hnext⟩, fun _ => hkey⟩
      | _ => cases hb
  | key members =>
    cases token with
    | literal pieces =>
      obtain ⟨key, _, rfl⟩ := Option.map_eq_some_iff.mp hb
      exact ⟨hstack, hnext.1, fun hnil => absurd hnil hnext.2⟩
    | _ => cases hb
  | colon members key =>
    simp only [Building.step] at hb
    split at hb
    · exact Option.some.inj hb ▸ ⟨⟨hnext, hstack⟩, trivial⟩
    · cases hb
  | numeralColon =>
    simp only [Building.step] at hb
    split at hb
    · exact Option.some.inj hb ▸ ⟨hstack, trivial⟩
    · cases hb
  | numeral =>
    cases token with
    | literal pieces =>
      obtain ⟨n, hn, rfl⟩ := Option.map_eq_some_iff.mp hb
      obtain ⟨t, _, hn⟩ := Option.bind_eq_some_iff.mp hn
      exact ⟨hstack, Number.wellFormed_of_ofText? hn⟩
    | _ => cases hb
  | numeralEnd n =>
    simp only [Building.step] at hb
    split at hb
    · exact Option.some.inj hb ▸ ⟨hstack, hnext, hstack.length_le⟩
    · cases hb
  | complete v => exact sound_close hstack hnext.1 hnext.2 hb

theorem Sound.foldlM {tokens : List Token} (ht : ∀ token ∈ tokens, token.Sound) {b b' : Building}
    (h : b.Sound) (hb : tokens.foldlM Building.step b = some b') : b'.Sound := by
  induction tokens generalizing b with
  | nil =>
    rw [List.foldlM_nil, Option.pure_def, Option.some.injEq] at hb
    exact hb ▸ h
  | cons token tokens ih =>
    rw [List.foldlM_cons, Option.bind_eq_bind] at hb
    obtain ⟨b₁, h₁, hb⟩ := Option.bind_eq_some_iff.mp hb
    exact ih (fun t hmem => ht t (List.mem_cons_of_mem token hmem))
      (h.step (ht token List.mem_cons_self) h₁) hb

end Building

/-- **What is read is the value of a document**, no deeper than the limit. -/
theorem wellFormed_of_read? {t : Text} {v : Json} (h : read? t = some v) :
    v.WellFormed ∧ v.depth ≤ nestingLimit := by
  obtain ⟨tokens, htokens, hv⟩ := Option.bind_eq_some_iff.mp h
  obtain ⟨⟨stack, next⟩, hb, hfinish⟩ := Option.bind_eq_some_iff.mp hv
  have hsound := Building.Sound.foldlM (Token.sound_of_ofText? htokens)
    (b := ⟨[], .value⟩) ⟨trivial, trivial⟩ hb
  unfold Building.finish at hfinish
  split at hfinish
  · next value hstack hnext =>
    simp only at hstack hnext
    subst hstack hnext
    rw [Option.some.injEq] at hfinish
    subst hfinish
    simpa [Building.Sound, Expectation.Sound] using hsound.2
  · cases hfinish

end Json
end NotebookTidy
