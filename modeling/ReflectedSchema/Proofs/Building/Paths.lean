import ReflectedSchema.Proofs.Hosts.Raising

/-!
# The path of a failure

A build that fails notes the properties that were being visited, innermost first.  `Source.Path` says that
they are a path of the class graph: the outermost one is a property of the root, each references the class
of the one inside it, and the innermost one fails by itself.  A class is reserved as long as the properties
below it are visited, so no class comes twice even if the graph has cycles.  If the root cannot be described
at all, nothing is noted.
-/

namespace ReflectedSchema

open Build

/-! ## Frames -/

/-- A failure with more frames around it. -/
def Failure.within (f : Failure) (chain : List Frame) : Failure :=
  { f with context := f.context ++ chain }

/-- No frames around a failure leave it as it is. -/
theorem Failure.within_nil (f : Failure) : f.within [] = f := by
  rw [within, List.append_nil]

/-- A failure is known by what it is with the same frames around it. -/
theorem Failure.within_injective {f g : Failure} {chain : List Frame} (h : f.within chain = g.within chain) :
    f = g := by
  obtain ⟨cause, context⟩ := f
  obtain ⟨cause', context'⟩ := g
  obtain ⟨rfl, same⟩ := Failure.mk.inj h
  obtain rfl : context = context' := List.append_cancel_right same
  rfl

/-- Noting a property puts its frame outermost. -/
theorem Failure.annotate_within (f : Failure) (chain : List Frame) (owner property : String) :
    (f.within chain).annotate owner property = f.within (chain ++ [⟨owner, property⟩]) := by
  simp only [annotate, within, List.append_assoc]

/-- Frames of properties without dots are told by their texts. -/
theorem Frame.text_injective {f g : Frame} (hf : '.' ∉ f.property.toList)
    (hg : '.' ∉ g.property.toList) (h : f.text = g.text) : f = g := by
  -- The property stands behind the last dot.
  have property : ∀ {f : Frame}, '.' ∉ f.property.toList →
      f.text.toList.reverse.takeWhile (· ≠ '.') = f.property.toList.reverse := by
    intro f hf
    have reversed : f.text.toList.reverse = f.property.toList.reverse ++ '.' :: f.owner.toList.reverse := by
      simp [Frame.text]
    rw [reversed, List.takeWhile_append_of_pos fun c hc => ?_, List.takeWhile_cons_of_neg (by simp),
      List.append_nil]
    exact decide_eq_true fun hdot => hf (hdot ▸ List.mem_reverse.mp hc)
  have same : f.property = g.property := by
    have reversed := property hf
    rw [h, property hg, List.reverse_inj] at reversed
    exact String.toList_injective reversed.symm
  have owners : f.owner.toList ++ ('.' :: f.property.toList) =
      g.owner.toList ++ ('.' :: f.property.toList) := by
    have texts := congrArg String.toList h
    simpa [Frame.text, same] using texts
  obtain ⟨owner, name⟩ := f
  obtain ⟨owner', name'⟩ := g
  obtain rfl : name = name' := same
  obtain rfl : owner = owner' := String.toList_injective (List.append_cancel_right owners)
  rfl

/-! ## Properties that fail -/

/-- The names that an entity can be shared under. -/
inductive Entity.GoesBy : Entity → String → Prop
  | class (name : String) : GoesBy (.class name) name
  | struct (tag : StructTag) : GoesBy (.struct tag) tag.name
  | enum (owner name : String) : GoesBy (.enum (enumPath owner name)) name
  | path (path : String) : GoesBy (.enum path) path

namespace Source

variable (source : Source)

/-- A frame stands for a property that the source lists. -/
structure Lists (frame : Frame) (info : PropertyInfo) : Prop where
  known : source.hasClass frame.owner = true
  plain : frame.owner ∉ StructTag.names
  listed : ∃ infos, source.properties frame.owner = .ok infos ∧ info ∈ infos
  name : info.name = frame.property

/-- The property of a frame has a kind. -/
def Types (frame : Frame) (kind : Kind) : Prop :=
  ∃ info, source.Lists frame info ∧ resolve source.hasClass info = .ok kind

/-- The property of a frame references a class, as its own kind or as that of its items. -/
def References (frame : Frame) (className : String) : Prop :=
  ∃ kind, source.Types frame kind ∧ kind.item = .object className

/-- A class cannot be described, whatever its properties are. -/
inductive Undescribed (className : String) : Failure → Prop
  | unknown (h : source.hasClass className = false) :
    Undescribed className { cause := .unknownClass className none }
  | structName (h : className ∈ StructTag.names) :
    Undescribed className { cause := .unsupported (.structName className) }
  | unlisted {f : Failure} (h : source.properties className = .error (.failure f)) :
    Undescribed className f

variable (reach : Entity → Prop)

/-- A kind has no node although its class, if it has one, may be described: the members of an enumeration
are not known, or there are none, or the name of a class is that of something else that is reached. -/
inductive Rejects : Kind → Failure → Prop
  | members {owner name : String} {flags : Bool} {f : Failure}
    (h : source.members owner name = .error (.failure f)) : Rejects (.enum owner name flags) f
  | empty {owner name : String} {flags : Bool} (h : source.members owner name = .ok []) :
    Rejects (.enum owner name flags) { cause := .unsupported (.emptyEnum (enumPath owner name)) }
  | clash {className : String} {holder : Entity} (other : holder ≠ .class className)
    (reached : reach holder) (named : holder.GoesBy className) :
    Rejects (.object className) { cause := .unsupported (.clash className holder) }

/-- The property of a frame fails by itself: it has no kind, or one without a node, or it references a
class that cannot be described. -/
inductive FailsAt (frame : Frame) : Failure → Prop
  | unresolved {info : PropertyInfo} {u : Unsupported} (hl : source.Lists frame info)
    (hu : resolve source.hasClass info = .error u) : FailsAt frame { cause := .unsupported u }
  | rejected {kind : Kind} {f : Failure} (ht : source.Types frame kind)
    (h : source.Rejects reach kind.item f) : FailsAt frame f
  | undescribed {className : String} {f : Failure} (hr : source.References frame className)
    (h : source.Undescribed className f) : FailsAt frame f

/-- Frames, innermost first, are the way from a class to a property that fails. -/
structure Path (className : String) (chain : List Frame) (raised : Failure) : Prop where
  starts : chain.getLast?.map Frame.owner = some className
  listed : ∀ frame ∈ chain, ∃ info, source.Lists frame info
  linked : chain.IsChain fun inner outer => source.References outer inner.owner
  once : (chain.map Frame.owner).Nodup
  fails : ∃ first, chain.head? = some first ∧ source.FailsAt reach first raised

/-- How a class fails, and with which frames. -/
inductive FailsIn (className : String) : List Frame → Failure → Prop
  | undescribed {f : Failure} (h : source.Undescribed className f) : FailsIn className [] f
  | path {chain : List Frame} {f : Failure} (h : source.Path reach className chain f) :
    FailsIn className chain f

/-- How the node of a kind fails, and with which frames. -/
inductive FailsBelow : Kind → List Frame → Failure → Prop
  | rejected {kind : Kind} {f : Failure} (h : source.Rejects reach kind f) : FailsBelow kind [] f
  | object {className : String} {chain : List Frame} {f : Failure}
    (h : source.FailsIn reach className chain f) : FailsBelow (.object className) chain f

variable {source reach} {className property next : String} {chain : List Frame} {f raised : Failure}

/-- A frame that fails is that of a listed property. -/
theorem FailsAt.lists {frame : Frame} (h : source.FailsAt reach frame f) :
    ∃ info, source.Lists frame info := by
  cases h with
  | unresolved hl => exact ⟨_, hl⟩
  | rejected ht => exact ht.imp fun _ h => h.1
  | undescribed hr =>
    obtain ⟨_, ht, -⟩ := hr
    exact ht.imp fun _ h => h.1

/-- A class one of whose properties has a frame can be described but for its properties. -/
theorem Undescribed.not_lists (h : source.Undescribed className f) {info : PropertyInfo} :
    ¬ source.Lists ⟨className, property⟩ info := by
  rintro ⟨known, plain, ⟨infos, listed, -⟩, -⟩
  cases h with
  | unknown h => cases h.symm.trans known
  | structName h => exact plain h
  | unlisted h => cases h.symm.trans listed

namespace Path

/-- A path has at least the property that fails. -/
theorem ne_nil (h : source.Path reach className chain raised) : chain ≠ [] := by
  rintro rfl
  cases h.starts

/-- A property that fails by itself is a path. -/
theorem single (h : source.FailsAt reach ⟨className, property⟩ raised) :
    source.Path reach className [⟨className, property⟩] raised where
  starts := rfl
  listed := List.forall_mem_singleton.mpr h.lists
  linked := List.isChain_singleton _
  once := List.nodup_singleton _
  fails := ⟨_, rfl, h⟩

/-- A path goes on with a property that references its class. -/
theorem concat (h : source.Path reach next chain raised)
    (hr : source.References ⟨className, property⟩ next)
    (new : ∀ frame ∈ chain, frame.owner ≠ className) :
    source.Path reach className (chain ++ [⟨className, property⟩]) raised where
  starts := by rw [List.getLast?_concat, Option.map_some]
  listed := by
    refine List.forall_mem_append.mpr ⟨h.listed, List.forall_mem_singleton.mpr ?_⟩
    obtain ⟨_, ht, -⟩ := hr
    exact ht.imp fun _ h => h.1
  linked := by
    refine List.isChain_append.mpr ⟨h.linked, List.isChain_singleton _, fun inner hi outer ho => ?_⟩
    obtain rfl := Option.some.inj ho
    have last := h.starts
    rw [Option.mem_def.mp hi, Option.map_some] at last
    rw [Option.some.inj last]
    exact hr
  once := by
    rw [List.map_append, List.nodup_append']
    refine ⟨h.once, List.nodup_singleton _, fun owner ho hs => ?_⟩
    obtain ⟨frame, hm, rfl⟩ := List.mem_map.mp ho
    exact new frame hm (List.mem_singleton.mp hs)
  fails := by
    obtain ⟨first, hh, fails⟩ := h.fails
    exact ⟨first, by rw [List.head?_append, hh, Option.some_or], fails⟩

/-- The texts of a path are distinct, as long as its properties have no dots in their names. -/
theorem nodup_texts (h : source.Path reach className chain raised)
    (plain : ∀ frame ∈ chain, '.' ∉ frame.property.toList) : (chain.map Frame.text).Nodup :=
  h.once.of_map.map_on fun f hf g hg same => Frame.text_injective (plain f hf) (plain g hg) same

/-- A path is not one of a class that cannot be described. -/
theorem not_undescribed (h : source.Path reach className chain raised) :
    ¬ source.Undescribed className f := by
  obtain ⟨last, hl, rfl⟩ := Option.map_eq_some_iff.mp h.starts
  obtain ⟨info, lists⟩ := h.listed last (List.mem_of_getLast? hl)
  exact fun undescribed => undescribed.not_lists lists

/-- What fails below a property fails on a path through it. -/
theorem of_failsBelow {kind : Kind} (h : source.FailsBelow reach kind.item chain raised)
    (ht : source.Types ⟨className, property⟩ kind) (new : ∀ frame ∈ chain, frame.owner ≠ className) :
    source.Path reach className (chain ++ [⟨className, property⟩]) raised := by
  generalize hi : kind.item = item at h
  cases h with
  | rejected h => exact .single (.rejected ht (hi ▸ h))
  | object h =>
    cases h with
    | undescribed h => exact .single (.undescribed ⟨kind, ht, hi⟩ h)
    | path h => exact h.concat ⟨kind, ht, hi⟩ new

end Path

/-- A class fails without frames exactly if it cannot be described. -/
theorem FailsIn.chain_eq_nil_iff (h : source.FailsIn reach className chain raised) :
    chain = [] ↔ ∃ stated, source.Undescribed className stated := by
  cases h with
  | undescribed h => exact ⟨fun _ => ⟨raised, h⟩, fun _ => rfl⟩
  | path h => exact ⟨fun empty => absurd empty h.ne_nil, fun ⟨_, hu⟩ => absurd hu h.not_undescribed⟩

/-! ## What is raised -/

/-- What a source that raises nothing with frames makes a property fail with has none. -/
theorem Rejects.bare {kind : Kind} (h : source.Rejects reach kind f) (bare : source.RaisesBare) :
    f.context = [] := by
  cases h with
  | members h => exact bare.members _ _ _ h f rfl
  | empty => rfl
  | clash => rfl

/-- A class that cannot be described fails without frames. -/
theorem Undescribed.bare (h : source.Undescribed className f) (bare : source.RaisesBare) :
    f.context = [] := by
  cases h with
  | unknown => rfl
  | structName => rfl
  | unlisted h => exact bare.properties _ _ h f rfl

/-- What a class fails with had no frames of its own. -/
theorem FailsIn.bare (h : source.FailsIn reach className chain f) (bare : source.RaisesBare) :
    f.context = [] := by
  cases h with
  | undescribed h => exact h.bare bare
  | path h =>
    obtain ⟨first, -, fails⟩ := h.fails
    cases fails with
    | unresolved => rfl
    | rejected _ h => exact h.bare bare
    | undescribed _ h => exact h.bare bare

/-- What a kind fails with had no frames of its own. -/
theorem FailsBelow.bare {kind : Kind} (h : source.FailsBelow reach kind chain f)
    (bare : source.RaisesBare) : f.context = [] := by
  cases h with
  | rejected h => exact h.bare bare
  | object h => exact h.bare bare

end Source

namespace Build

variable {source : Source} {reach : Entity → Prop} {b m : Building}

/-- If a step raises a failure, its frames are of classes that were not entered before, and lead from the
step to what was raised. -/
def Leads (way : List Frame → Failure → Prop) (b : Building) (e : Raised) : Prop :=
  ∀ f, e = .failure f → ∃ raised chain, f = raised.within chain ∧ way chain raised ∧
    ∀ frame ∈ chain, ¬ b.Knows (.properties frame.owner)

namespace Leads

variable {way : List Frame → Failure → Prop}

/-- A fault leads nowhere. -/
theorem fault (x : Fault) : Leads way b (.fault x) :=
  fun _ h => nomatch h

/-- What is raised where it stands has no frames around it. -/
theorem of_way {f : Failure} (h : way [] f) : Leads way b (.failure f) := by
  rintro _ ⟨⟩
  exact ⟨f, [], f.within_nil.symm, h, nofun⟩

/-- What leads one way leads any wider way. -/
theorem mono {e : Raised} {wider : List Frame → Failure → Prop} (h : Leads way b e)
    (hw : ∀ chain f, way chain f → wider chain f) : Leads wider b e := by
  rintro f he
  obtain ⟨raised, chain, same, leads, new⟩ := h f he
  exact ⟨raised, chain, same, hw _ _ leads, new⟩

/-- Below a property of a class that is entered now, the way goes through the property. -/
theorem annotate {className : String} {p : PropertyDescriptor} {e : Raised}
    (h : Leads (source.FailsBelow reach p.kind.item) m e) (onward : b.Onward m)
    (free : ¬ b.Knows (.properties className)) (known : m.Knows (.properties className))
    (ht : source.Types ⟨className, p.name⟩ p.kind) :
    Leads (source.FailsIn reach className) b (e.annotate className p.name) := by
  cases e with
  | fault x => exact .fault x
  | failure inner =>
    rintro _ ⟨⟩
    obtain ⟨raised, chain, rfl, below, new⟩ := h inner rfl
    refine ⟨raised, chain ++ [⟨className, p.name⟩], raised.annotate_within .., .path ?_, fun frame hf => ?_⟩
    · exact .of_failsBelow below ht fun frame hf same => new frame hf (same ▸ known)
    · rcases List.mem_append.mp hf with hf | hf
      · exact fun before => new frame hf (onward.grows before)
      · rwa [List.mem_singleton.mp hf]

end Leads

/-! ## Nodes -/

/-- An enumeration fails for its members only. -/
theorem defineEnum_leads (source : Source) (reach : Entity → Prop) (owner name : String) (flags : Bool)
    (b : Building) :
    FailsOnly (Leads (source.FailsBelow reach (.enum owner name flags)) b)
      (defineEnum source owner name flags) b := by
  refine .of_definitions_bind ?_
  dsimp only
  split
  · exact .of_pure
  obtain ⟨chosen, records, named⟩ := run_enumName source owner name b
  refine FailsOnly.bind (fun e after hf => ?_) fun a n _ => FailsOnly.bind (fun e after hr => ?_)
    fun _ _ _ => FailsOnly.of_ask.bind fun _ _ _ =>
      FailsOnly.bind (.of_mk fun e hm => ?members) fun members _ hm => ?store
  · rw [named] at hf
    cases hf
  · rw [run_reserve] at hr
    split at hr
    · cases hr
      exact .fault _
    · cases hr
  case members =>
    rintro f rfl
    exact Leads.of_way (.rejected (.members hm)) f rfl
  case store =>
    have listed : source.members owner name = .ok members := congrArg Prod.fst hm
    split_ifs with none
    · obtain rfl := List.isEmpty_iff.mp none
      refine FailsOnly.of_define.bind fun _ _ _ => .bind (.of_throw ?_) fun _ _ hm => ?_
      · exact Leads.of_way (.rejected (.empty listed))
      · cases hm
    · exact FailsOnly.of_define.bind fun _ _ _ => .of_pure

/-- The node of a kind fails as that of its items does. -/
theorem nodeOf_leads {enter : String → Build Node} {kind : Kind}
    (henter : ∀ className, reach (.class className) →
      FailsOnly (Leads (source.FailsBelow reach (.object className)) b) (enter className) b)
    (hk : ∀ e ∈ kind.mentions, reach e) :
    FailsOnly (Leads (source.FailsBelow reach kind.item) b) (nodeOf source enter kind) b := by
  induction kind with
  | struct tag => exact structNode_failsOnly tag b
  | enum owner name flags =>
    exact (defineEnum_leads source reach owner name flags b).bind fun _ _ _ =>
      FailsOnly.of_refer.bind fun _ _ _ => .of_pure
  | object className => exact henter className (hk _ (List.mem_singleton.mpr rfl))
  | array element length ih => exact (ih hk).bind fun _ _ _ => .of_pure
  | packed tag => exact (packedItems_failsOnly tag b).bind fun _ _ _ => .of_pure
  | _ => exact .of_pure

/-! ## Classes -/

/-- The description of a class fails because it cannot be described, or at a property without a kind. -/
theorem describeClass_leads {className : String} (free : ¬ b.Knows (.properties className)) {e : Raised}
    (h : describeClass source className = .error e) :
    Leads (source.FailsIn reach className) b e := by
  unfold describeClass at h
  dsimp only at h
  split at h
  · rename_i unknown
    cases h
    exact .of_way (.undescribed (.unknown (by simpa using unknown)))
  rename_i known
  split at h
  · rename_i named
    cases h
    exact .of_way (.undescribed (.structName (List.contains_iff_mem.mp named)))
  rename_i plain
  rcases bind_eq_error.mp h with unlisted | ⟨infos, listed, h⟩
  · rintro f rfl
    exact Leads.of_way (.undescribed (.unlisted unlisted)) f rfl
  rcases bind_eq_error.mp h with undescribed | ⟨_, -, h⟩
  · obtain ⟨info, hi, hd⟩ := exists_of_mapM_error undescribed
    unfold describeProperty at hd
    split at hd
    · cases hd
    · rename_i u hu
      cases hd
      rintro _ ⟨⟩
      have lists : source.Lists ⟨className, info.name⟩ info :=
        ⟨by simpa using known, by simpa using plain, ⟨infos, listed, hi⟩, rfl⟩
      refine ⟨{ cause := .unsupported u }, [⟨className, info.name⟩], rfl, ?_, ?_⟩
      · exact .path (.single (.unresolved lists hu))
      · exact List.forall_mem_singleton.mpr free
  · cases h

/-- A described property has the kind of the property that the source lists. -/
theorem types_of_describeClass {className : String} {c : ClassDescriptor} {p : PropertyDescriptor}
    (hd : describeClass source className = .ok c) (hp : p ∈ c.properties) :
    source.Types ⟨className, p.name⟩ p.kind := by
  obtain ⟨known, plain, -, infos, listed, described⟩ := describeClass_eq_ok hd
  obtain ⟨info, hi, hinfo⟩ := exists_of_mem_right described hp
  obtain ⟨name, kind⟩ := describeProperty_eq_ok hinfo
  exact ⟨info, ⟨known, plain, ⟨infos, listed, hi⟩, name.symm⟩, kind⟩

/-- An entity goes by the name that it owns. -/
theorem Ready.goesBy (h : Ready source reach b) {name : String} {e : Entity}
    (ho : b.definitions.owner? name = some e) : e.GoesBy name := by
  have hk := h.sound.keyed ho
  cases e with
  | «class» className => exact Option.some.inj hk ▸ .class className
  | struct tag => exact Option.some.inj hk ▸ .struct tag
  | enum path =>
    obtain ⟨found, hf⟩ := h.sound.listed hk
    obtain ⟨rfl, -, chosen, hc, named, -⟩ := h.sound.enums hf
    obtain rfl := Option.some.inj (hc.symm.trans hk)
    rcases named with rfl | rfl
    · exact .enum _ _
    · exact .path _

/-- A class whose name was just reserved fails because it cannot be described, or on a path from it. -/
theorem classDefinition_leads (closed : Closed source reach) {left : Nat}
    (inner : ∀ {n : Building} {next}, Ready source reach n → reach (.class next) →
      FailsOnly (Leads (source.FailsBelow reach (.object next)) n) (openClass source left next) n)
    {className : String} {u : Unit} (h : Ready source reach b) (hc : reach (.class className))
    (hr : (ExceptT.run (reserve className (.class className))).run b = (.ok u, m)) :
    FailsOnly (Leads (source.FailsIn reach className) b)
      (classDefinition source (openClass source left) className) m := by
  obtain ⟨free, -, -, -⟩ := of_reserve hr
  refine .of_classDefinition closed (openClass_walks source left) h hc hr
    (fun e he => describeClass_leads free he) fun c hd p hp n ready onward known => ?_
  have node : FailsOnly (Leads (source.FailsBelow reach p.kind.item) n)
      (nodeOf source (openClass source left) p.kind) n :=
    nodeOf_leads (fun _ hn => inner ready hn) fun e he => closed _ _ hc (.property hd hp he)
  refine FailsOnly.bind (node.within fun e he => ?_) fun _ _ _ => .of_pure
  exact he.annotate onward free known (types_of_describeClass hd hp)

/-- **Entering a class fails on a path from it**, however many classes are left to enter. -/
theorem openClass_leads (closed : Closed source reach) {left : Nat} {className : String}
    (h : Ready source reach b) (hc : reach (.class className)) :
    FailsOnly (Leads (source.FailsBelow reach (.object className)) b) (openClass source left className)
      b := by
  have clash : ∀ {b : Building} {className}, Ready source reach b → ∀ holder,
      b.definitions.owner? className = some holder → holder ≠ .class className →
        Leads (source.FailsBelow reach (.object className)) b (.unsupported (.clash className holder)) :=
    fun h _ ho other => .of_way (.rejected (.clash other (h.reached ho) (h.goesBy ho)))
  induction left generalizing b className with
  | zero =>
    rw [openClass_zero]
    exact .of_referOr (clash h) fun _ => .of_throw (.fault _)
  | succ left ih =>
    rw [openClass_succ]
    refine .of_referOr (clash h) fun free => .of_enterClass free fun u m hr e after he => ?_
    exact (classDefinition_leads closed ih h hc hr e after he).mono fun _ _ => .object

/-! ## Builds -/

/-- What the last check of a schema raises is no failure. -/
theorem checked_leads {way : List Frame → Failure → Prop} {schema : Schema} :
    FailsOnly (Leads way b) (ExceptT.mk (pure schema.checked)) m := by
  refine .of_mk fun e he => ?_
  unfold Schema.checked at he
  split at he
  · cases he
    exact .fault _
  · cases he

/-- Nothing is there when a build begins. -/
theorem not_knows_empty (className : String) : ¬ ({} : Building).Knows (.properties className) := by
  simp [Building.Knows, Definitions.contains, Definitions.empty]

/-- What the build of a class fails with leads from the class to what was raised. -/
theorem buildClass_leads (source : Source) (className title : String) :
    FailsOnly (Leads (source.FailsIn (source.Reaches (.object className)) className) {})
      (buildClass source className title) {} := by
  have closed := closed_reaches source (.object className)
  have root : source.Reaches (.object className) (.class className) :=
    source.reaches_self (List.mem_singleton.mpr rfl)
  refine FailsOnly.bind (.of_reserve (not_knows_empty className)) fun u opened hr =>
    FailsOnly.bind ?_ fun definition m _ => .of_definitions_bind ?_
  · exact classDefinition_leads closed (openClass_leads closed) .empty root hr
  · dsimp only
    split
    · exact FailsOnly.of_define.bind fun _ _ _ => .of_definitions_bind <|
        FailsOnly.of_log.bind fun _ _ _ => checked_leads
    · exact FailsOnly.of_define.bind fun _ _ _ => .of_definitions_bind <|
        FailsOnly.of_log.bind fun _ _ _ => checked_leads

/-- A bare kind that is no object fails as its items do, inside the wrapper of the schema. -/
theorem buildKind_leads (source : Source) {kind : Kind} (plain : ∀ className, kind ≠ .object className)
    (title : String) :
    FailsOnly (Leads (fun frames raised => ∃ chain, frames = chain ++ [⟨title, "value"⟩] ∧
        source.FailsBelow (source.Reaches kind) kind.item chain raised) {})
      (buildKind source kind title) {} := by
  have node : FailsOnly (Leads (source.FailsBelow (source.Reaches kind) kind.item) {})
      (nodeOf source (openClass source source.depth) kind) {} :=
    nodeOf_leads (fun _ hn => openClass_leads (closed_reaches source kind) .empty hn)
      fun e he => source.reaches_self he
  unfold buildKind
  split
  · exact absurd rfl (plain _)
  · exact checked_leads
  · refine FailsOnly.bind (node.within fun e he => ?_) fun _ _ _ => .of_definitions_bind checked_leads
    cases e with
    | fault x => exact .fault x
    | failure inner =>
      rintro _ ⟨⟩
      obtain ⟨raised, chain, rfl, below, -⟩ := he inner rfl
      exact ⟨raised, _, raised.annotate_within .., ⟨chain, rfl, below⟩, fun _ _ => not_knows_empty _⟩

end Build

/-! ## The main result -/

/-- **A failure of a build follows a path of the class graph.**  Whatever the source, a class whose build
ends in a failure either cannot be described, and then no frame was noted, or the frames behind those of
what was raised are a path from the class: the outermost is a property of the class, each references the
class of the one inside it, no class comes twice, and the innermost fails by itself.  A bare type that is no
object fails in the same way, with the wrapper of its schema as one more frame around it. -/
theorem failures_follow_paths (source : Source) :
    (∀ className title f, (buildClass source className title).run.1 = .error (.failure f) →
      ∃ raised chain, f = raised.within chain ∧ (source.RaisesBare → f.context = chain) ∧
        (chain = [] ↔ ∃ stated, source.Undescribed className stated) ∧
        source.FailsIn (source.Reaches (.object className)) className chain raised) ∧
    (∀ info kind f, resolve source.hasClass info = .ok kind → (∀ className, kind ≠ .object className) →
      (buildType source info).run.1 = .error (.failure f) →
      ∃ raised chain outermost,
        outermost = ⟨if info.name.isEmpty then kind.describe else info.name, "value"⟩ ∧
        f = raised.within (chain ++ [outermost]) ∧
        (source.RaisesBare → f.context = chain ++ [outermost]) ∧
        source.FailsBelow (source.Reaches kind) kind.item chain raised) ∧
    ∀ reach className chain raised, source.Path reach className chain raised →
      (∀ frame ∈ chain, '.' ∉ frame.property.toList) → (chain.map Frame.text).Nodup := by
  refine ⟨fun className title f h => ?_, fun info kind f hk plain h => ?_, fun _ _ _ _ => ?_⟩
  · obtain ⟨raised, chain, rfl, fails, -⟩ := (buildClass_leads source className title).of_run h f rfl
    refine ⟨raised, chain, rfl, fun bare => ?_, fails.chain_eq_nil_iff, fails⟩
    rw [Failure.within, fails.bare bare, List.nil_append]
  · unfold buildType at h
    rw [hk] at h
    obtain ⟨raised, _, rfl, ⟨chain, rfl, fails⟩, -⟩ := (buildKind_leads source plain _).of_run h f rfl
    refine ⟨raised, chain, _, rfl, rfl, fun bare => ?_, fails⟩
    rw [Failure.within, fails.bare bare, List.nil_append]
  · exact Source.Path.nodup_texts

/-- A board shows its holder, who is in a mood, and there are no moods. -/
def boards : Table where
  classes := [
    ("Board", { properties := [{ name := "holder", type := .object, className := "Holder" }] }),
    ("Holder", {
      properties := [{ name := "mood", type := .int, className := "Holder.Mood", usage := .classIsEnum }]
      enums := [("Mood", [])] })]

/-- Some boards. -/
def boardList : PropertyInfo :=
  { name := "boards", type := .array, hint := .arrayType, hintText := "Board" }

/-- Why boards fail. -/
def moodless : Failure := { cause := .unsupported (.emptyEnum "Holder.Mood") }

/-- A board fails at the mood of its holder, and so does a list of boards. -/
theorem failures_follow_paths_mood :
    (buildClass boards.source "Board" "").run.1 =
        .error (.failure (moodless.within [⟨"Holder", "mood"⟩, ⟨"Board", "holder"⟩])) ∧
      boards.source.Path (boards.source.Reaches (.object "Board")) "Board"
        [⟨"Holder", "mood"⟩, ⟨"Board", "holder"⟩] moodless ∧
      ["Holder.mood", "Board.holder"].Nodup ∧
      (buildType boards.source boardList).run.1 = .error (.failure
        (moodless.within [⟨"Holder", "mood"⟩, ⟨"Board", "holder"⟩, ⟨"boards", "value"⟩])) ∧
      boards.source.FailsBelow (boards.source.Reaches (.array (.object "Board") none)) (.object "Board")
        [⟨"Holder", "mood"⟩, ⟨"Board", "holder"⟩] moodless := by
  have failed : (buildClass boards.source "Board" "").run.1 =
      .error (.failure (moodless.within [⟨"Holder", "mood"⟩, ⟨"Board", "holder"⟩])) := by cbv
  have listed : (buildType boards.source boardList).run.1 = .error (.failure
      (moodless.within [⟨"Holder", "mood"⟩, ⟨"Board", "holder"⟩, ⟨"boards", "value"⟩])) := by cbv
  obtain ⟨raised, chain, same, noted, -, fails⟩ :=
    (failures_follow_paths boards.source).1 "Board" "" _ failed
  obtain rfl := noted boards.source_raisesBare
  obtain rfl := Failure.within_injective same
  obtain ⟨raised, chain, _, rfl, same, noted, below⟩ :=
    (failures_follow_paths boards.source).2.1 boardList (.array (.object "Board") none) _ (by cbv)
      (by simp) listed
  have behind : [⟨"Holder", "mood"⟩, ⟨"Board", "holder"⟩] ++ [⟨"boards", "value"⟩] =
      chain ++ [⟨"boards", "value"⟩] := noted boards.source_raisesBare
  obtain rfl := List.append_cancel_right behind
  obtain rfl := Failure.within_injective same
  have path : boards.source.Path (boards.source.Reaches (.object "Board")) "Board"
      [⟨"Holder", "mood"⟩, ⟨"Board", "holder"⟩] moodless := by
    generalize hc : [(⟨"Holder", "mood"⟩ : Frame), ⟨"Board", "holder"⟩] = chain at fails
    cases fails with
    | undescribed h => cases hc
    | path h => exact h
  exact ⟨failed, path, (failures_follow_paths boards.source).2.2 _ _ _ _ path (by decide), listed, below⟩

end ReflectedSchema
