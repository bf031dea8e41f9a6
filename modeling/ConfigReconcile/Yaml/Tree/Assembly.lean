import ConfigReconcile.Yaml.Tree.Basic

/-!
# From tokens to a tree

`Tree.ofTokens` puts the tokens of a document together.  An `Assembly` takes one token at a time.
Within a document it is a stack of FRAMES, the collections that are open, innermost first, and what
the innermost one waits for:

* `node props`   a node, of which the properties may have been read;
* `entry`        the next member of a flow collection, or its end;
* `after`        what may stand behind a member.

A node that is missing is an empty scalar.  A text holds at most one document.
-/

namespace ConfigReconcile.Yaml

open Text

/-! ## frames -/

/-- a collection that is open; its members are kept backwards -/
inductive Frame where
  /-- a block sequence; one without indentation of its own ends at the first token that is no `-` -/
  | block (props : Properties) (indented : Bool) (items : List (Tree String))
  /-- a block mapping, and the key whose value comes next -/
  | blockMapping (props : Properties) (entries : List (Tree String × Tree String))
      (key? : Option (Tree String))
  | flow (props : Properties) (items : List (Tree String))
  /-- a single pair inside a flow sequence, and its key -/
  | flowPair (props : Properties) (items : List (Tree String)) (key? : Option (Tree String))
  /-- a flow mapping; `marked` says that its next key follows a key token -/
  | flowMapping (props : Properties) (entries : List (Tree String × Tree String)) (marked : Bool)
      (key? : Option (Tree String))
  deriving Repr

inductive Expect where
  | node (props : Properties)
  | entry
  | after
  deriving Repr

/-- what has been put together -/
inductive Assembly where
  /-- no token yet -/
  | fresh
  /-- directives before the document: whether the version is given, and the handles -/
  | directives (version : Bool) (handles : List (String × Bytes))
  /-- within the document; `marked` says that it starts with `---` -/
  | inside (handles : List (String × Bytes)) (marked : Bool) (frames : List Frame) (expect : Expect)
  /-- behind the document -/
  | complete (root : Tree String)
  deriving Repr

namespace Frame

/-- block collections may open inside -/
def allowsBlock : Frame → Bool
  | .block _ _ _ => true
  | .blockMapping _ _ _ => true
  | _ => false

/-- a sequence without indentation of its own may open inside -/
def allowsUnindented : Frame → Bool
  | .blockMapping _ _ _ => true
  | _ => false

/-- a token that shows that a member is missing -/
def isAbsence : Frame → Token → Bool
  | .block _ _ _, .blockEntry => true
  | .block _ _ _, .blockEnd => true
  | .block _ false _, .key => true
  | .block _ false _, .value => true
  | .blockMapping _ _ _, .key => true
  | .blockMapping _ _ _, .value => true
  | .blockMapping _ _ _, .blockEnd => true
  | .flowPair _ _ none, .value => true
  | .flowPair _ _ _, .flowEntry => true
  | .flowPair _ _ _, .flowSequenceEnd => true
  | .flowMapping _ _ true none, .value => true
  | .flowMapping _ _ true none, .flowEntry => true
  | .flowMapping _ _ true none, .flowMappingEnd => true
  | .flowMapping _ _ _ (some _), .flowEntry => true
  | .flowMapping _ _ _ (some _), .flowMappingEnd => true
  | _, _ => false

/-- a missing key of a pair takes the token that shows it along -/
def takesAbsence : Frame → Bool
  | .flowPair _ _ none => true
  | _ => false

/-- the frame with one more node -/
def receive (t : Tree String) : Frame → Frame
  | .block p i ts => .block p i (t :: ts)
  | .blockMapping p es none => .blockMapping p es (some t)
  | .blockMapping p es (some k) => .blockMapping p ((k, t) :: es) none
  | .flow p ts => .flow p (t :: ts)
  | .flowPair p ts none => .flowPair p ts (some t)
  | .flowPair p ts (some k) => .flow p (.mapping .none [(k, t)] :: ts)
  | .flowMapping p es true none => .flowMapping p es true (some t)
  | .flowMapping p es false none => .flowMapping p ((t, .empty .none) :: es) false none
  | .flowMapping p es m (some k) => .flowMapping p ((k, t) :: es) m none

/-- the collection that a frame holds -/
def close : Frame → Tree String
  | .block p _ ts => .sequence p ts.reverse
  | .blockMapping p es _ => .mapping p es.reverse
  | .flow p ts => .sequence p ts.reverse
  | .flowPair p ts _ => .sequence p ts.reverse
  | .flowMapping p es _ _ => .mapping p es.reverse

end Frame

namespace Assembly

/-! ## within a document -/

/-- a node is done: the innermost frame takes it, or it is the root -/
def finishNode (handles : List (String × Bytes)) (marked : Bool) (frames : List Frame)
    (t : Tree String) : Assembly :=
  match frames with
  | [] => .complete t
  | f :: fs => .inside handles marked (f.receive t :: fs) .after

/-- the bytes of a tag; a handle has to be declared -/
def resolveTag (handles : List (String × Bytes)) (handle : String) (suffix : Bytes) :
    Except Fault Bytes :=
  if handle = "" then .ok suffix
  else
    match handles.find? (·.1 == handle) with
    | some (_, lead) => .ok (lead ++ suffix)
    | none => .error .undefinedHandle

/-- a token behind a member, in a frame that is not an unindented sequence about to end -/
def feedFrame (handles : List (String × Bytes)) (marked : Bool) (f : Frame) (fs : List Frame)
    (tok : Token) : Except Fault Assembly :=
  let inside (frames : List Frame) (e : Expect) : Except Fault Assembly :=
    .ok (.inside handles marked frames e)
  let close : Except Fault Assembly := .ok (finishNode handles marked fs f.close)
  let node : Expect := .node .none
  match f, tok with
  | .block _ _ _, .blockEntry => inside (f :: fs) node
  | .block _ true _, .blockEnd => close
  | .blockMapping _ _ none, .key => inside (f :: fs) node
  | .blockMapping _ _ none, .blockEnd => close
  | .blockMapping _ _ (some _), .value => inside (f :: fs) node
  | .blockMapping p es (some k), .key =>
    inside (.blockMapping p ((k, .empty .none) :: es) none :: fs) node
  | .blockMapping p es (some k), .blockEnd =>
    .ok (finishNode handles marked fs (Frame.blockMapping p ((k, .empty .none) :: es) none).close)
  | .flow _ _, .flowEntry => inside (f :: fs) .entry
  | .flow _ _, .flowSequenceEnd => close
  | .flowPair _ _ (some _), .value => inside (f :: fs) node
  | .flowPair p ts (some k), .flowEntry =>
    inside (.flow p (.mapping .none [(k, .empty .none)] :: ts) :: fs) .entry
  | .flowPair p ts (some k), .flowSequenceEnd =>
    .ok (finishNode handles marked fs
      (Frame.flow p (.mapping .none [(k, .empty .none)] :: ts)).close)
  | .flowMapping _ _ _ none, .flowEntry => inside (f :: fs) .entry
  | .flowMapping _ _ _ none, .flowMappingEnd => close
  | .flowMapping _ _ _ (some _), .value => inside (f :: fs) node
  | .flowMapping p es m (some k), .flowEntry =>
    inside (.flowMapping p ((k, .empty .none) :: es) m none :: fs) .entry
  | .flowMapping p es _ (some k), .flowMappingEnd =>
    .ok (finishNode handles marked fs (.mapping p ((k, .empty .none) :: es).reverse))
  | _, _ => .error .unexpectedToken

/-- a token behind a member -/
def feedAfter (handles : List (String × Bytes)) (marked : Bool) (frames : List Frame)
    (tok : Token) : Except Fault Assembly :=
  match frames with
  | [] => .error .unexpectedToken
  | .block p false ts :: fs =>
    if tok = .blockEntry then feedFrame handles marked (.block p false ts) fs tok
    else
      match fs with
      | [] => .error .unexpectedToken
      | f :: fs => feedFrame handles marked (f.receive (.sequence p ts.reverse)) fs tok
  | f :: fs => feedFrame handles marked f fs tok

/-- a token behind a whole node -/
def feedDone (a : Assembly) (tok : Token) : Except Fault Assembly :=
  match a with
  | .inside handles marked frames _ => feedAfter handles marked frames tok
  | .complete t => if tok = .documentEnd then .ok (.complete t) else .error .unexpectedToken
  | _ => .error .unexpectedToken

/-- a token where a node is due, with properties that may have been read -/
def feedNode (handles : List (String × Bytes)) (marked : Bool) (frames : List Frame)
    (props : Properties) (tok : Token) : Except Fault Assembly :=
  let finish (t : Tree String) : Except Fault Assembly := .ok (finishNode handles marked frames t)
  let opening (f : Frame) (e : Expect) : Except Fault Assembly :=
    .ok (.inside handles marked (f :: frames) e)
  let blockHere := frames.head?.all Frame.allowsBlock
  -- what comes when the token begins no node: an empty scalar if there are properties
  let missing : Except Fault Assembly :=
    if props.isNone then .error .unexpectedToken
    else (finishNode handles marked frames (.empty props)).feedDone tok
  if props.isNone && (frames.head?.any (·.isAbsence tok)) then
    if frames.head?.any Frame.takesAbsence then finish (.empty .none)
    else (finishNode handles marked frames (.empty .none)).feedDone tok
  else if props.isNone && frames.isEmpty && marked && tok = .documentEnd then
    (finishNode handles marked frames (.empty .none)).feedDone tok
  else
    match tok with
    | .alias name => if props.isNone then finish (.alias name) else missing
    | .anchor name =>
      if props.anchor?.isNone then
        .ok (.inside handles marked frames (.node { props with anchor? := some name }))
      else missing
    | .tag handle suffix =>
      if props.tag?.isNone then do
        let tag ← resolveTag handles handle suffix
        return .inside handles marked frames (.node { props with tag? := some tag })
      else missing
    | .scalar style text => finish (.scalar props.forScalar style text)
    | .flowSequenceStart => opening (.flow props []) .entry
    | .flowMappingStart => opening (.flowMapping props [] false none) .entry
    | .blockSequenceStart => if blockHere then opening (.block props true []) .after else missing
    | .blockMappingStart =>
      if blockHere then opening (.blockMapping props [] none) .after else missing
    | .blockEntry =>
      if frames.head?.any Frame.allowsUnindented then opening (.block props false []) (.node .none)
      else missing
    | _ => missing

/-- a token where a flow collection has its next member or its end -/
def feedEntry (handles : List (String × Bytes)) (marked : Bool) (frames : List Frame)
    (tok : Token) : Except Fault Assembly :=
  match frames, tok with
  | .flow p ts :: fs, .flowSequenceEnd => .ok (finishNode handles marked fs (Frame.flow p ts).close)
  | .flow p ts :: fs, .key => .ok (.inside handles marked (.flowPair p ts none :: fs) (.node .none))
  | .flowMapping p es m k :: fs, .flowMappingEnd =>
    .ok (finishNode handles marked fs (Frame.flowMapping p es m k).close)
  | .flowMapping p es _ k :: fs, .key =>
    .ok (.inside handles marked (.flowMapping p es true k :: fs) (.node .none))
  | .flowMapping p es _ k :: fs, tok =>
    feedNode handles marked (.flowMapping p es false k :: fs) .none tok
  | frames, tok => feedNode handles marked frames .none tok

/-! ## around a document -/

/-- the handles that need no directive -/
def defaultHandles : List (String × Bytes) :=
  [("!", Utf8.encode "!"), ("!!", Utf8.encode "tag:yaml.org,2002:")]

/-- a directive, of which there is one version and one for each handle -/
def feedDirective (version : Bool) (handles : List (String × Bytes)) (tok : Token) :
    Except Fault Assembly :=
  match tok with
  | .version major minor =>
    if version || major ≠ 1 || (minor ≠ 1 && minor ≠ 2) then .error .badDirective
    else .ok (.directives true handles)
  | .tagDirective handle lead =>
    if handles.any (·.1 == handle) then .error .badDirective
    else .ok (.directives version (handles ++ [(handle, lead)]))
  | .documentStart => .ok (.inside (handles ++ defaultHandles) true [] (.node .none))
  | _ => .error .unexpectedToken

/-- the assembly with one more token -/
def feed (a : Assembly) (tok : Token) : Except Fault Assembly :=
  match a with
  | .fresh =>
    match tok with
    | .version _ _ => feedDirective false [] tok
    | .tagDirective _ _ => feedDirective false [] tok
    | .documentStart => feedDirective false [] tok
    | _ => feedNode defaultHandles false [] .none tok
  | .directives version handles => feedDirective version handles tok
  | .inside handles marked frames e =>
    match e with
    | .node props => feedNode handles marked frames props tok
    | .entry => feedEntry handles marked frames tok
    | .after => feedAfter handles marked frames tok
  | .complete t => (Assembly.complete t).feedDone tok

/-- what a text without more tokens holds; nothing if there is no document -/
def finish (a : Assembly) : Except Fault (Option (Tree String)) :=
  match a with
  | .fresh => .ok none
  | .complete t => .ok (some t)
  | .inside _ marked [] (.node props) =>
    if marked || !props.isNone then .ok (some (.empty props)) else .error .unexpectedToken
  | _ => .error .unexpectedToken

end Assembly

/-- the document that tokens make, if there is one -/
def Tree.ofTokens (ts : List Token) : Except Fault (Option (Tree String)) :=
  (ts.foldlM Assembly.feed .fresh).bind Assembly.finish

end ConfigReconcile.Yaml
