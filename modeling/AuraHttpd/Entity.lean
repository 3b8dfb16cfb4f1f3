import AuraHttpd.Lib.CString

/-!
# Decoding of HTML entities

`entity.c` over C strings.  The decoder works in place; as no entity is shorter than what it
stands for, it never overwrites what it has still to read, and is written here as a function of
the text.  What it leaves may hold a terminator in the middle (`&#0;`).
-/

namespace AuraHttpd

open CString

def unicodeMax : ℕ := 0x10FFFF

/-- `NAMED_ENTITIES`, with the bytes each name stands for. -/
def namedEntities : Array (Bytes × Bytes) :=
  #[(lit "AElig;", [195, 134]), (lit "Aacute;", [195, 129]), (lit "Acirc;", [195, 130]),
    (lit "Agrave;", [195, 128]), (lit "Alpha;", [206, 145]), (lit "Aring;", [195, 133]),
    (lit "Atilde;", [195, 131]), (lit "Auml;", [195, 132]), (lit "Beta;", [206, 146]),
    (lit "Ccedil;", [195, 135]), (lit "Chi;", [206, 167]), (lit "Dagger;", [226, 128, 161]),
    (lit "Delta;", [206, 148]), (lit "ETH;", [195, 144]), (lit "Eacute;", [195, 137]),
    (lit "Ecirc;", [195, 138]), (lit "Egrave;", [195, 136]), (lit "Epsilon;", [206, 149]),
    (lit "Eta;", [206, 151]), (lit "Euml;", [195, 139]), (lit "Gamma;", [206, 147]),
    (lit "Iacute;", [195, 141]), (lit "Icirc;", [195, 142]), (lit "Igrave;", [195, 140]),
    (lit "Iota;", [206, 153]), (lit "Iuml;", [195, 143]), (lit "Kappa;", [206, 154]),
    (lit "Lambda;", [206, 155]), (lit "Mu;", [206, 156]), (lit "Ntilde;", [195, 145]),
    (lit "Nu;", [206, 157]), (lit "OElig;", [197, 146]), (lit "Oacute;", [195, 147]),
    (lit "Ocirc;", [195, 148]), (lit "Ograve;", [195, 146]), (lit "Omega;", [206, 169]),
    (lit "Omicron;", [206, 159]), (lit "Oslash;", [195, 152]), (lit "Otilde;", [195, 149]),
    (lit "Ouml;", [195, 150]), (lit "Phi;", [206, 166]), (lit "Pi;", [206, 160]),
    (lit "Prime;", [226, 128, 179]), (lit "Psi;", [206, 168]), (lit "Rho;", [206, 161]),
    (lit "Scaron;", [197, 160]), (lit "Sigma;", [206, 163]), (lit "THORN;", [195, 158]),
    (lit "Tau;", [206, 164]), (lit "Theta;", [206, 152]), (lit "Uacute;", [195, 154]),
    (lit "Ucirc;", [195, 155]), (lit "Ugrave;", [195, 153]), (lit "Upsilon;", [206, 165]),
    (lit "Uuml;", [195, 156]), (lit "Xi;", [206, 158]), (lit "Yacute;", [195, 157]),
    (lit "Yuml;", [197, 184]), (lit "Zeta;", [206, 150]), (lit "aacute;", [195, 161]),
    (lit "acirc;", [195, 162]), (lit "acute;", [194, 180]), (lit "aelig;", [195, 166]),
    (lit "agrave;", [195, 160]), (lit "alefsym;", [226, 132, 181]), (lit "alpha;", [206, 177]),
    (lit "amp;", [38]), (lit "and;", [226, 136, 167]), (lit "ang;", [226, 136, 160]),
    (lit "apos;", [39]), (lit "aring;", [195, 165]), (lit "asymp;", [226, 137, 136]),
    (lit "atilde;", [195, 163]), (lit "auml;", [195, 164]), (lit "bdquo;", [226, 128, 158]),
    (lit "beta;", [206, 178]), (lit "brvbar;", [194, 166]), (lit "bull;", [226, 128, 162]),
    (lit "cap;", [226, 136, 169]), (lit "ccedil;", [195, 167]), (lit "cedil;", [194, 184]),
    (lit "cent;", [194, 162]), (lit "chi;", [207, 135]), (lit "circ;", [203, 134]),
    (lit "clubs;", [226, 153, 163]), (lit "cong;", [226, 137, 133]), (lit "copy;", [194, 169]),
    (lit "crarr;", [226, 134, 181]), (lit "cup;", [226, 136, 170]), (lit "curren;", [194, 164]),
    (lit "dArr;", [226, 135, 147]), (lit "dagger;", [226, 128, 160]),
    (lit "darr;", [226, 134, 147]), (lit "deg;", [194, 176]), (lit "delta;", [206, 180]),
    (lit "diams;", [226, 153, 166]), (lit "divide;", [195, 183]), (lit "eacute;", [195, 169]),
    (lit "ecirc;", [195, 170]), (lit "egrave;", [195, 168]), (lit "empty;", [226, 136, 133]),
    (lit "emsp;", [226, 128, 131]), (lit "ensp;", [226, 128, 130]), (lit "epsilon;", [206, 181]),
    (lit "equiv;", [226, 137, 161]), (lit "eta;", [206, 183]), (lit "eth;", [195, 176]),
    (lit "euml;", [195, 171]), (lit "euro;", [226, 130, 172]), (lit "exist;", [226, 136, 131]),
    (lit "fnof;", [198, 146]), (lit "forall;", [226, 136, 128]), (lit "frac12;", [194, 189]),
    (lit "frac14;", [194, 188]), (lit "frac34;", [194, 190]), (lit "frasl;", [226, 129, 132]),
    (lit "gamma;", [206, 179]), (lit "ge;", [226, 137, 165]), (lit "gt;", [62]),
    (lit "hArr;", [226, 135, 148]), (lit "harr;", [226, 134, 148]),
    (lit "hearts;", [226, 153, 165]), (lit "hellip;", [226, 128, 166]), (lit "iacute;", [195, 173]),
    (lit "icirc;", [195, 174]), (lit "iexcl;", [194, 161]), (lit "igrave;", [195, 172]),
    (lit "image;", [226, 132, 145]), (lit "infin;", [226, 136, 158]), (lit "int;", [226, 136, 171]),
    (lit "iota;", [206, 185]), (lit "iquest;", [194, 191]), (lit "isin;", [226, 136, 136]),
    (lit "iuml;", [195, 175]), (lit "kappa;", [206, 186]), (lit "lArr;", [226, 135, 144]),
    (lit "lambda;", [206, 187]), (lit "lang;", [227, 128, 136]), (lit "laquo;", [194, 171]),
    (lit "larr;", [226, 134, 144]), (lit "lceil;", [226, 140, 136]),
    (lit "ldquo;", [226, 128, 156]), (lit "le;", [226, 137, 164]), (lit "lfloor;", [226, 140, 138]),
    (lit "lowast;", [226, 136, 151]), (lit "loz;", [226, 151, 138]), (lit "lrm;", [226, 128, 142]),
    (lit "lsaquo;", [226, 128, 185]), (lit "lsquo;", [226, 128, 152]), (lit "lt;", [60]),
    (lit "macr;", [194, 175]), (lit "mdash;", [226, 128, 148]), (lit "micro;", [194, 181]),
    (lit "middot;", [194, 183]), (lit "minus;", [226, 136, 146]), (lit "mu;", [206, 188]),
    (lit "nabla;", [226, 136, 135]), (lit "nbsp;", [194, 160]), (lit "ndash;", [226, 128, 147]),
    (lit "ne;", [226, 137, 160]), (lit "ni;", [226, 136, 139]), (lit "not;", [194, 172]),
    (lit "notin;", [226, 136, 137]), (lit "nsub;", [226, 138, 132]), (lit "ntilde;", [195, 177]),
    (lit "nu;", [206, 189]), (lit "oacute;", [195, 179]), (lit "ocirc;", [195, 180]),
    (lit "oelig;", [197, 147]), (lit "ograve;", [195, 178]), (lit "oline;", [226, 128, 190]),
    (lit "omega;", [207, 137]), (lit "omicron;", [206, 191]), (lit "oplus;", [226, 138, 149]),
    (lit "or;", [226, 136, 168]), (lit "ordf;", [194, 170]), (lit "ordm;", [194, 186]),
    (lit "oslash;", [195, 184]), (lit "otilde;", [195, 181]), (lit "otimes;", [226, 138, 151]),
    (lit "ouml;", [195, 182]), (lit "para;", [194, 182]), (lit "part;", [226, 136, 130]),
    (lit "permil;", [226, 128, 176]), (lit "perp;", [226, 138, 165]), (lit "phi;", [207, 134]),
    (lit "pi;", [207, 128]), (lit "piv;", [207, 150]), (lit "plusmn;", [194, 177]),
    (lit "pound;", [194, 163]), (lit "prime;", [226, 128, 178]), (lit "prod;", [226, 136, 143]),
    (lit "prop;", [226, 136, 157]), (lit "psi;", [207, 136]), (lit "quot;", [34]),
    (lit "rArr;", [226, 135, 146]), (lit "radic;", [226, 136, 154]), (lit "rang;", [227, 128, 137]),
    (lit "raquo;", [194, 187]), (lit "rarr;", [226, 134, 146]), (lit "rceil;", [226, 140, 137]),
    (lit "rdquo;", [226, 128, 157]), (lit "real;", [226, 132, 156]), (lit "reg;", [194, 174]),
    (lit "rfloor;", [226, 140, 139]), (lit "rho;", [207, 129]), (lit "rlm;", [226, 128, 143]),
    (lit "rsaquo;", [226, 128, 186]), (lit "rsquo;", [226, 128, 153]),
    (lit "sbquo;", [226, 128, 154]), (lit "scaron;", [197, 161]), (lit "sdot;", [226, 139, 133]),
    (lit "sect;", [194, 167]), (lit "shy;", [194, 173]), (lit "sigma;", [207, 131]),
    (lit "sigmaf;", [207, 130]), (lit "sim;", [226, 136, 188]), (lit "spades;", [226, 153, 160]),
    (lit "sub;", [226, 138, 130]), (lit "sube;", [226, 138, 134]), (lit "sum;", [226, 136, 145]),
    (lit "sup1;", [194, 185]), (lit "sup2;", [194, 178]), (lit "sup3;", [194, 179]),
    (lit "sup;", [226, 138, 131]), (lit "supe;", [226, 138, 135]), (lit "szlig;", [195, 159]),
    (lit "tau;", [207, 132]), (lit "there4;", [226, 136, 180]), (lit "theta;", [206, 184]),
    (lit "thetasym;", [207, 145]), (lit "thinsp;", [226, 128, 137]), (lit "thorn;", [195, 190]),
    (lit "tilde;", [203, 156]), (lit "times;", [195, 151]), (lit "trade;", [226, 132, 162]),
    (lit "uArr;", [226, 135, 145]), (lit "uacute;", [195, 186]), (lit "uarr;", [226, 134, 145]),
    (lit "ucirc;", [195, 187]), (lit "ugrave;", [195, 185]), (lit "uml;", [194, 168]),
    (lit "upsih;", [207, 146]), (lit "upsilon;", [207, 133]), (lit "uuml;", [195, 188]),
    (lit "weierp;", [226, 132, 152]), (lit "xi;", [206, 190]), (lit "yacute;", [195, 189]),
    (lit "yen;", [194, 165]), (lit "yuml;", [195, 191]), (lit "zeta;", [206, 182]),
    (lit "zwj;", [226, 128, 141]), (lit "zwnj;", [226, 128, 140])]

/-- `get_named_entity`: the entry whose name the text starts with. -/
def getNamedEntity (name : Bytes) : Option Bytes :=
  (bsearch (fun e => strncmp name e.1 e.1.length) namedEntities).map Prod.snd

/-- `putc_utf8`. -/
def putcUtf8 (cp : ℕ) : Bytes :=
  if cp ≤ 0x7F then [cp.toUInt8]
  else if cp ≤ 0x7FF then
    [((6 <<< 5) ||| (cp >>> 6)).toUInt8, ((2 <<< 6) ||| (cp &&& 0x3F)).toUInt8]
  else if cp ≤ 0xFFFF then
    [((14 <<< 4) ||| (cp >>> 12)).toUInt8, ((2 <<< 6) ||| ((cp >>> 6) &&& 0x3F)).toUInt8,
      ((2 <<< 6) ||| (cp &&& 0x3F)).toUInt8]
  else if cp ≤ 0x10FFFF then
    [((30 <<< 3) ||| (cp >>> 18)).toUInt8, ((2 <<< 6) ||| ((cp >>> 12) &&& 0x3F)).toUInt8,
      ((2 <<< 6) ||| ((cp >>> 6) &&& 0x3F)).toUInt8, ((2 <<< 6) ||| (cp &&& 0x3F)).toUInt8]
  else []

/-- `parse_entity` on the text from an ampersand on: what is written, and the text to go on
with. -/
def parseEntity (current : Bytes) : Option (Bytes × Bytes) := do
  let fin ← strchr current 59
  if current[1]? = some 35 then
    let hex := current[2]? = some 120 ∨ current[2]? = some 88
    let (cp, erange, tail) := strtoul (if hex then 16 else 10) (current.drop (if hex then 3 else 2))
    if erange ∨ tail ≠ fin ∨ cp > unicodeMax then none
    else some (putcUtf8 cp, fin.drop 1)
  else
    let entity ← getNamedEntity (current.drop 1)
    some (entity, fin.drop 1)

/-- The loop of `decode_html_entities_utf8`, which goes from one ampersand to the next. -/
def decodeLoop : ℕ → Bytes → Bytes
  | 0, text => text
  | fuel + 1, text =>
    match strchr text 38 with
    | none => text
    | some current =>
      text.takeWhile (· ≠ 38) ++
        match parseEntity current with
        | some (out, rest) => out ++ decodeLoop fuel rest
        | none => current.take 1 ++ decodeLoop fuel (current.drop 1)

/-- `decode_html_entities_utf8` in place. -/
def decodeHtmlEntitiesUtf8 (text : Bytes) : Bytes := decodeLoop text.length text

end AuraHttpd
