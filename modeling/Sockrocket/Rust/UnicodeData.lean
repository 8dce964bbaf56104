import Mathlib.Data.List.Basic

/-!
# Unicode character data

The tables behind `char::to_lowercase`, `char::to_uppercase`, `char::is_alphanumeric` and
`char::is_whitespace`, from version 17.0 of the Unicode character database. A case table is a
list of runs, and a property is the ascending list of the code points where membership changes,
most of them written as distances.

Vocabulary and scope: `Sockrocket.Rust.Unicode`.
-/

namespace Rust.Unicode

/-- A run of cased characters `lo, lo + stride, ..., hi`. The image of `lo` is `image`, and the other
images follow at the same distances. -/
structure CaseRun where
  lo : Nat
  hi : Nat
  stride : Nat
  image : Nat
deriving Repr, DecidableEq

/-- A run of one character. -/
def single (mapping : Nat × Nat) : CaseRun :=
  ⟨mapping.1, mapping.1, 1, mapping.2⟩

/-- Single-character lowercase mappings. -/
def lowerRuns : List CaseRun :=
  [⟨65,90,1,97⟩,⟨192,214,1,224⟩,⟨216,222,1,248⟩,⟨256,302,2,257⟩,⟨306,310,2,307⟩,⟨313,327,2,314⟩,
   ⟨330,374,2,331⟩,⟨377,381,2,378⟩,⟨386,388,2,387⟩,⟨393,394,1,598⟩,⟨416,420,2,417⟩,⟨433,434,1,650⟩,
   ⟨435,437,2,436⟩,⟨459,475,2,460⟩,⟨478,494,2,479⟩,⟨498,500,2,499⟩,⟨504,542,2,505⟩,⟨546,562,2,547⟩,
   ⟨582,590,2,583⟩,⟨880,882,2,881⟩,⟨904,906,1,941⟩,⟨910,911,1,973⟩,⟨913,929,1,945⟩,⟨931,939,1,963⟩,
   ⟨984,1006,2,985⟩,⟨1021,1023,1,891⟩,⟨1024,1039,1,1104⟩,⟨1040,1071,1,1072⟩,⟨1120,1152,2,1121⟩,
   ⟨1162,1214,2,1163⟩,⟨1217,1229,2,1218⟩,⟨1232,1326,2,1233⟩,⟨1329,1366,1,1377⟩,⟨4256,4293,1,11520⟩,
   ⟨5024,5103,1,43888⟩,⟨5104,5109,1,5112⟩,⟨7312,7354,1,4304⟩,⟨7357,7359,1,4349⟩,⟨7680,7828,2,7681⟩,
   ⟨7840,7934,2,7841⟩,⟨7944,7951,1,7936⟩,⟨7960,7965,1,7952⟩,⟨7976,7983,1,7968⟩,⟨7992,7999,1,7984⟩,
   ⟨8008,8013,1,8000⟩,⟨8025,8031,2,8017⟩,⟨8040,8047,1,8032⟩,⟨8072,8079,1,8064⟩,⟨8088,8095,1,8080⟩,
   ⟨8104,8111,1,8096⟩,⟨8120,8121,1,8112⟩,⟨8122,8123,1,8048⟩,⟨8136,8139,1,8050⟩,⟨8152,8153,1,8144⟩,
   ⟨8154,8155,1,8054⟩,⟨8168,8169,1,8160⟩,⟨8170,8171,1,8058⟩,⟨8184,8185,1,8056⟩,⟨8186,8187,1,8060⟩,
   ⟨8544,8559,1,8560⟩,⟨9398,9423,1,9424⟩,⟨11264,11311,1,11312⟩,⟨11367,11371,2,11368⟩,
   ⟨11390,11391,1,575⟩,⟨11392,11490,2,11393⟩,⟨11499,11501,2,11500⟩,⟨42560,42604,2,42561⟩,
   ⟨42624,42650,2,42625⟩,⟨42786,42798,2,42787⟩,⟨42802,42862,2,42803⟩,⟨42873,42875,2,42874⟩,
   ⟨42878,42886,2,42879⟩,⟨42896,42898,2,42897⟩,⟨42902,42920,2,42903⟩,⟨42932,42946,2,42933⟩,
   ⟨42951,42953,2,42952⟩,⟨42956,42970,2,42957⟩,⟨65313,65338,1,65345⟩,⟨66560,66599,1,66600⟩,
   ⟨66736,66771,1,66776⟩,⟨66928,66938,1,66967⟩,⟨66940,66954,1,66979⟩,⟨66956,66962,1,66995⟩,
   ⟨66964,66965,1,67003⟩,⟨68736,68786,1,68800⟩,⟨68944,68965,1,68976⟩,⟨71840,71871,1,71872⟩,
   ⟨93760,93791,1,93792⟩,⟨93856,93880,1,93883⟩,⟨125184,125217,1,125218⟩] ++ List.map single
   [(376,255),(385,595),(390,596),(391,392),(395,396),(398,477),(399,601),(400,603),(401,402),
   (403,608),(404,611),(406,617),(407,616),(408,409),(412,623),(413,626),(415,629),(422,640),
   (423,424),(425,643),(428,429),(430,648),(431,432),(439,658),(440,441),(444,445),(452,454),
   (453,454),(455,457),(456,457),(458,460),(497,499),(502,405),(503,447),(544,414),(570,11365),
   (571,572),(573,410),(574,11366),(577,578),(579,384),(580,649),(581,652),(886,887),(895,1011),
   (902,940),(908,972),(975,983),(1012,952),(1015,1016),(1017,1010),(1018,1019),(1216,1231),
   (4295,11559),(4301,11565),(7305,7306),(7838,223),(8124,8115),(8140,8131),(8172,8165),(8188,8179),
   (8486,969),(8490,107),(8491,229),(8498,8526),(8579,8580),(11360,11361),(11362,619),(11363,7549),
   (11364,637),(11373,593),(11374,625),(11375,592),(11376,594),(11378,11379),(11381,11382),
   (11506,11507),(42877,7545),(42891,42892),(42893,613),(42922,614),(42923,604),(42924,609),
   (42925,620),(42926,618),(42928,670),(42929,647),(42930,669),(42931,43859),(42948,42900),
   (42949,642),(42950,7566),(42955,612),(42972,411),(42997,42998)]

/-- Single-character uppercase mappings. -/
def upperRuns : List CaseRun :=
  [⟨97,122,1,65⟩,⟨224,246,1,192⟩,⟨248,254,1,216⟩,⟨257,303,2,256⟩,⟨307,311,2,306⟩,⟨314,328,2,313⟩,
   ⟨331,375,2,330⟩,⟨378,382,2,377⟩,⟨387,389,2,386⟩,⟨417,421,2,416⟩,⟨436,438,2,435⟩,⟨462,476,2,461⟩,
   ⟨479,495,2,478⟩,⟨505,543,2,504⟩,⟨547,563,2,546⟩,⟨575,576,1,11390⟩,⟨583,591,2,582⟩,
   ⟨598,599,1,393⟩,⟨650,651,1,433⟩,⟨881,883,2,880⟩,⟨891,893,1,1021⟩,⟨941,943,1,904⟩,⟨945,961,1,913⟩,
   ⟨963,971,1,931⟩,⟨973,974,1,910⟩,⟨985,1007,2,984⟩,⟨1072,1103,1,1040⟩,⟨1104,1119,1,1024⟩,
   ⟨1121,1153,2,1120⟩,⟨1163,1215,2,1162⟩,⟨1218,1230,2,1217⟩,⟨1233,1327,2,1232⟩,⟨1377,1414,1,1329⟩,
   ⟨4304,4346,1,7312⟩,⟨4349,4351,1,7357⟩,⟨5112,5117,1,5104⟩,⟨7299,7300,1,1057⟩,⟨7681,7829,2,7680⟩,
   ⟨7841,7935,2,7840⟩,⟨7936,7943,1,7944⟩,⟨7952,7957,1,7960⟩,⟨7968,7975,1,7976⟩,⟨7984,7991,1,7992⟩,
   ⟨8000,8005,1,8008⟩,⟨8017,8023,2,8025⟩,⟨8032,8039,1,8040⟩,⟨8048,8049,1,8122⟩,⟨8050,8053,1,8136⟩,
   ⟨8054,8055,1,8154⟩,⟨8056,8057,1,8184⟩,⟨8058,8059,1,8170⟩,⟨8060,8061,1,8186⟩,⟨8112,8113,1,8120⟩,
   ⟨8144,8145,1,8152⟩,⟨8160,8161,1,8168⟩,⟨8560,8575,1,8544⟩,⟨9424,9449,1,9398⟩,
   ⟨11312,11359,1,11264⟩,⟨11368,11372,2,11367⟩,⟨11393,11491,2,11392⟩,⟨11500,11502,2,11499⟩,
   ⟨11520,11557,1,4256⟩,⟨42561,42605,2,42560⟩,⟨42625,42651,2,42624⟩,⟨42787,42799,2,42786⟩,
   ⟨42803,42863,2,42802⟩,⟨42874,42876,2,42873⟩,⟨42879,42887,2,42878⟩,⟨42897,42899,2,42896⟩,
   ⟨42903,42921,2,42902⟩,⟨42933,42947,2,42932⟩,⟨42952,42954,2,42951⟩,⟨42957,42971,2,42956⟩,
   ⟨43888,43967,1,5024⟩,⟨65345,65370,1,65313⟩,⟨66600,66639,1,66560⟩,⟨66776,66811,1,66736⟩,
   ⟨66967,66977,1,66928⟩,⟨66979,66993,1,66940⟩,⟨66995,67001,1,66956⟩,⟨67003,67004,1,66964⟩,
   ⟨68800,68850,1,68736⟩,⟨68976,68997,1,68944⟩,⟨71872,71903,1,71840⟩,⟨93792,93823,1,93760⟩,
   ⟨93883,93907,1,93856⟩,⟨125218,125251,1,125184⟩] ++ List.map single [(181,924),(255,376),(305,73),
   (383,83),(384,579),(392,391),(396,395),(402,401),(405,502),(409,408),(410,573),(411,42972),
   (414,544),(424,423),(429,428),(432,431),(441,440),(445,444),(447,503),(453,452),(454,452),
   (456,455),(457,455),(459,458),(460,458),(477,398),(498,497),(499,497),(501,500),(572,571),
   (578,577),(592,11375),(593,11373),(594,11376),(595,385),(596,390),(601,399),(603,400),
   (604,42923),(608,403),(609,42924),(611,404),(612,42955),(613,42893),(614,42922),(616,407),
   (617,406),(618,42926),(619,11362),(620,42925),(623,412),(625,11374),(626,413),(629,415),
   (637,11364),(640,422),(642,42949),(643,425),(647,42929),(648,430),(649,580),(652,581),(658,439),
   (669,42930),(670,42928),(837,921),(887,886),(940,902),(962,931),(972,908),(976,914),(977,920),
   (981,934),(982,928),(983,975),(1008,922),(1009,929),(1010,1017),(1011,895),(1013,917),
   (1016,1015),(1019,1018),(1231,1216),(7296,1042),(7297,1044),(7298,1054),(7301,1058),(7302,1066),
   (7303,1122),(7304,42570),(7306,7305),(7545,42877),(7549,11363),(7566,42950),(7835,7776),
   (8126,921),(8165,8172),(8526,8498),(8580,8579),(11361,11360),(11365,570),(11366,574),
   (11379,11378),(11382,11381),(11507,11506),(11559,4295),(11565,4301),(42892,42891),(42900,42948),
   (42998,42997),(43859,42931)]

/-- Characters whose uppercase form has more than one character. -/
def upperExpansions : List (Nat × List Nat) :=
  [(223,[83,83]),(329,[700,78]),(496,[74,780]),(912,[921,776,769]),(944,[933,776,769]),
   (1415,[1333,1362]),(7830,[72,817]),(7831,[84,776]),(7832,[87,778]),(7833,[89,778]),
   (7834,[65,702]),(8016,[933,787]),(8018,[933,787,768]),(8020,[933,787,769]),(8022,[933,787,834]),
   (8064,[7944,921]),(8065,[7945,921]),(8066,[7946,921]),(8067,[7947,921]),(8068,[7948,921]),
   (8069,[7949,921]),(8070,[7950,921]),(8071,[7951,921]),(8072,[7944,921]),(8073,[7945,921]),
   (8074,[7946,921]),(8075,[7947,921]),(8076,[7948,921]),(8077,[7949,921]),(8078,[7950,921]),
   (8079,[7951,921]),(8080,[7976,921]),(8081,[7977,921]),(8082,[7978,921]),(8083,[7979,921]),
   (8084,[7980,921]),(8085,[7981,921]),(8086,[7982,921]),(8087,[7983,921]),(8088,[7976,921]),
   (8089,[7977,921]),(8090,[7978,921]),(8091,[7979,921]),(8092,[7980,921]),(8093,[7981,921]),
   (8094,[7982,921]),(8095,[7983,921]),(8096,[8040,921]),(8097,[8041,921]),(8098,[8042,921]),
   (8099,[8043,921]),(8100,[8044,921]),(8101,[8045,921]),(8102,[8046,921]),(8103,[8047,921]),
   (8104,[8040,921]),(8105,[8041,921]),(8106,[8042,921]),(8107,[8043,921]),(8108,[8044,921]),
   (8109,[8045,921]),(8110,[8046,921]),(8111,[8047,921]),(8114,[8122,921]),(8115,[913,921]),
   (8116,[902,921]),(8118,[913,834]),(8119,[913,834,921]),(8124,[913,921]),(8130,[8138,921]),
   (8131,[919,921]),(8132,[905,921]),(8134,[919,834]),(8135,[919,834,921]),(8140,[919,921]),
   (8146,[921,776,768]),(8147,[921,776,769]),(8150,[921,834]),(8151,[921,776,834]),
   (8162,[933,776,768]),(8163,[933,776,769]),(8164,[929,787]),(8166,[933,834]),(8167,[933,776,834]),
   (8178,[8186,921]),(8179,[937,921]),(8180,[911,921]),(8182,[937,834]),(8183,[937,834,921]),
   (8188,[937,921]),(64256,[70,70]),(64257,[70,73]),(64258,[70,76]),(64259,[70,70,73]),
   (64260,[70,70,76]),(64261,[83,84]),(64262,[83,84]),(64275,[1348,1350]),(64276,[1348,1333]),
   (64277,[1348,1339]),(64278,[1358,1350]),(64279,[1348,1341])]

/-- The ascending list with the given distances. -/
def fromGaps (last : Nat) : List Nat → List Nat
  | [] => []
  | gap :: rest => (last + gap) :: fromGaps (last + gap) rest

/-- Boundaries of the characters that are `Alphabetic` or numeric. -/
def alphanumericBounds : List Nat :=
  fromGaps 0 [48,10,7,26,6,26,47,1,7,2,1,1,3,2,1,3,1,23,1,31,1,458,4,12,14,5,7,1,1,1,86,1,29,18,1,2,
   2,4,1,1,6,1,1,3,1,1,1,20,1,83,1,139,8,166,1,38,2,1,6,41,39,14,1,1,1,2,1,2,1,1,8,27,4,4,29,11,5,
   56,1,17,4,102,1,8,4,8,4,16,2,1,16,48,13,101,14,43,9,2,4,1,5,24,2,19,19,25,7,11,5,24,1,7,7,1,8,42,
   10,12,3,7,6,76,1,16,1,3,4,15,2,10,1,19,1,8,2,2,2,22,1,7,1,1,3,4,3,8,2,2,2,2,1,1,8,1,4,2,1,5,2,12,
   2,6,2,1,4,3,1,6,4,2,2,22,1,7,1,2,1,2,1,2,4,5,4,2,2,2,4,1,7,4,1,1,7,16,11,3,1,9,1,3,1,22,1,7,1,2,
   1,5,3,9,1,3,1,2,3,1,15,4,2,10,9,4,4,3,1,8,2,2,2,22,1,7,1,2,1,5,3,8,2,2,2,2,9,2,4,2,1,5,2,10,1,7,
   10,2,1,6,3,3,1,4,3,2,1,1,1,2,3,2,3,3,3,12,4,5,3,3,1,3,3,1,6,1,14,13,13,13,1,3,1,23,1,16,3,8,1,3,
   1,3,8,2,1,3,1,2,2,4,2,10,8,7,1,4,1,8,1,3,1,23,1,10,1,5,3,8,1,3,1,3,8,2,5,3,1,4,2,10,1,3,12,13,1,
   3,1,41,2,8,1,3,1,3,1,1,5,16,2,19,1,6,1,3,1,18,3,24,1,9,1,1,2,7,8,6,1,1,1,8,6,10,2,2,13,58,5,7,6,
   1,2,10,39,2,1,1,1,5,1,24,1,1,1,19,1,3,2,5,1,1,6,1,2,10,2,4,32,1,31,20,12,8,1,36,4,19,4,16,1,36,
   67,55,1,1,2,15,6,78,2,38,1,1,5,1,2,43,1,333,1,4,2,7,1,1,1,4,2,41,1,4,2,33,1,4,2,7,1,1,1,4,2,15,1,
   57,1,4,2,67,14,20,3,16,16,86,2,6,3,620,2,17,1,26,5,75,3,11,7,20,11,21,12,20,12,13,1,3,1,2,12,52,
   2,19,14,1,4,1,3,10,6,10,22,10,6,89,7,43,5,70,10,31,1,12,4,9,13,40,2,5,11,44,4,26,6,11,37,28,4,63,
   2,20,11,10,6,10,13,1,23,2,11,3,49,52,1,15,1,8,3,10,38,42,2,58,1,11,14,55,9,10,3,49,2,11,5,43,2,3,
   41,4,1,6,1,2,3,1,5,192,19,34,11,278,2,6,2,38,2,6,2,8,1,1,1,1,1,1,1,31,2,53,1,7,1,1,3,3,1,7,3,4,2,
   6,4,13,5,3,1,7,115,2,2,6,5,11,6,13,101,1,4,1,2,10,1,1,3,5,6,1,1,1,1,1,1,4,1,11,2,4,5,5,4,1,1,58,
   726,60,26,74,630,30,1132,229,6,4,3,2,9,1,2,38,1,1,5,1,2,56,7,1,16,23,9,7,1,7,1,7,1,7,1,7,1,7,1,7,
   1,7,1,32,47,1,469,3,25,9,7,5,2,5,4,86,6,3,1,90,1,4,5,43,1,94,3,4,10,32,48,16,32,10,30,8,1,15,32,
   10,39,15,320,6592,64,22157,67,46,2,269,3,28,20,47,5,8,3,113,39,9,2,103,2,82,20,21,1,33,8,6,10,52,
   12,68,1,1,10,10,24,6,3,1,1,46,5,35,13,29,3,51,1,12,15,11,6,31,1,55,9,14,2,10,6,23,3,69,1,1,1,1,
   24,3,2,16,2,4,11,6,2,6,2,6,9,7,1,7,1,43,1,14,6,123,5,10,6,11172,12,23,4,49,8452,366,2,106,38,7,
   12,5,5,12,1,13,1,5,1,1,1,2,1,2,1,108,33,363,18,64,2,54,40,12,116,5,1,135,19,10,7,26,6,26,11,89,3,
   6,2,6,2,6,2,3,35,12,1,26,1,19,1,2,1,15,2,14,34,123,12,45,12,57,17,2,244,29,3,49,16,27,4,36,9,30,
   5,43,5,30,2,36,4,8,1,5,42,158,2,10,6,36,4,36,4,40,8,52,12,11,1,15,1,7,1,2,1,11,1,15,1,7,1,2,3,52,
   12,311,9,22,10,8,24,6,1,42,1,9,69,6,2,1,1,44,1,2,3,1,2,23,2,31,2,38,8,9,48,19,1,2,5,33,4,26,6,26,
   38,56,4,20,2,50,1,2,5,8,1,3,1,29,10,9,23,31,1,32,32,8,1,28,6,5,16,54,10,22,2,27,5,26,23,7,80,73,
   55,51,13,51,7,46,8,10,6,38,3,1,5,23,218,31,1,42,1,2,3,2,16,6,50,3,3,40,8,22,11,4,27,18,46,28,20,
   23,9,70,12,30,1,5,10,57,9,1,13,25,7,10,6,51,3,10,4,4,8,35,3,1,9,64,1,4,9,13,1,1,4,20,11,18,1,34,
   2,1,6,4,62,7,1,1,1,4,1,15,1,10,7,57,7,10,6,4,1,8,2,2,2,22,1,7,1,2,1,5,3,8,2,2,2,2,3,1,6,1,5,7,28,
   10,1,1,2,1,1,38,1,10,1,1,2,1,1,4,1,2,3,1,1,1,44,66,1,3,1,4,5,10,5,3,30,66,2,2,1,1,8,10,166,54,2,
   7,25,6,34,63,1,1,3,1,11,10,38,54,2,1,7,10,6,20,28,27,2,14,5,12,4,7,185,57,103,83,12,8,2,1,2,8,1,
   2,1,30,1,2,2,2,2,4,13,10,70,8,2,46,2,6,1,1,1,2,27,51,2,10,17,72,5,1,18,73,103,8,88,33,15,10,6,9,
   1,45,1,7,1,1,15,29,5,30,2,22,1,14,73,7,1,2,1,44,3,1,1,2,1,3,1,1,2,2,8,10,6,6,1,2,1,37,1,2,1,4,1,
   1,7,10,6,44,4,10,246,23,9,17,1,41,3,3,15,10,86,1,15,21,43,922,102,111,17,196,2636,97,15,1072,17,
   6,25,3995,5,583,6841,47,1,10,1734,569,7,31,1,10,6,79,1,10,6,30,18,48,16,4,12,10,1,7,1,21,5,19,
   432,45,3,10,198,87,9,25,2,25,44,75,4,57,7,17,64,2,1,1,12,7,9,7382,41,32,97,115,8701,4,1,7,1,2,1,
   291,15,1,29,3,2,1,14,4,8,396,2308,107,5,13,3,9,7,10,4,1,4177,10,1478,20,12,20,108,25,135,85,1,71,
   1,2,2,1,2,2,2,4,1,12,1,1,1,7,1,65,1,4,2,8,1,7,1,28,1,4,1,5,1,1,3,7,1,340,2,25,1,25,1,31,1,25,1,
   31,1,25,1,31,1,25,1,31,1,25,1,8,2,50,1792,31,6,6,213,7,1,17,2,7,1,2,1,5,5,62,33,1,112,45,10,7,2,
   10,4,1,321,30,18,44,4,10,470,28,4,10,214,30,2,11,197,31,1,22,8,2,224,7,1,4,1,2,1,15,1,197,2,9,48,
   68,3,1,3,1,4,10,791,59,1,3,1,4,76,45,1,15,194,4,1,27,1,2,1,1,2,1,1,10,1,4,1,1,1,1,6,1,4,1,1,1,1,
   1,1,3,1,2,1,1,2,1,1,1,1,1,1,1,1,1,1,2,1,1,2,4,1,7,1,4,1,4,1,1,1,10,1,17,5,3,1,5,1,17,580,13,35,
   26,6,26,6,26,2662,10,1030,42720,32,4382,2,5774,2,7473,15,622,2466,542,1506,4939,5,8490]

/-- Boundaries of the `Cased` characters. -/
def casedBounds : List Nat :=
  fromGaps 0 [65,26,6,26,47,1,10,1,4,1,5,23,1,31,1,195,1,4,4,208,2,35,7,2,30,5,96,1,42,4,2,2,2,4,1,
   1,6,1,1,3,1,1,1,20,1,83,1,139,8,166,1,38,9,41,2839,38,1,1,5,1,2,43,1,4,672,86,2,6,2178,11,5,43,2,
   3,64,192,64,278,2,6,2,38,2,6,2,8,1,1,1,1,1,1,1,31,2,53,1,7,1,1,3,3,1,7,3,4,2,6,4,13,5,3,1,7,116,
   1,13,1,16,13,101,1,4,1,2,10,1,1,3,5,6,1,1,1,1,1,1,4,1,6,4,1,2,4,5,5,4,1,17,32,3,2,817,52,1814,
   229,6,4,3,2,12,38,1,1,5,1,30994,46,18,30,132,102,3,4,1,77,20,6,1,3,821,43,1,14,6,80,20288,7,12,5,
   1033,26,6,26,1189,80,96,36,4,36,116,11,1,15,1,7,1,2,1,11,1,15,1,7,1,2,451,1,2,3,1,42,1,9,1221,51,
   13,51,93,22,10,22,2842,64,21856,64,32,25,2,25,25900,85,1,71,1,2,2,1,2,2,2,4,1,12,1,1,1,7,1,65,1,
   4,2,8,1,7,1,28,1,4,1,5,1,1,3,7,1,340,2,25,1,25,1,31,1,25,1,31,1,25,1,31,1,25,1,31,1,25,1,8,1844,
   10,1,20,6,6,261,62,2194,68,2028,26,6,26,6,26]

/-- Boundaries of the `Case_Ignorable` characters. -/
def caseIgnorableBounds : List Nat :=
  fromGaps 0 [39,1,6,1,11,1,35,1,1,1,71,1,4,1,1,1,4,1,2,2,503,192,4,2,4,1,9,2,1,1,251,7,207,1,5,1,
   49,45,1,1,1,2,1,2,1,1,44,1,11,6,10,11,1,1,35,1,10,21,16,1,101,8,1,10,1,4,33,1,1,1,30,27,91,11,58,
   11,4,1,2,1,24,24,43,3,44,1,7,2,5,9,41,58,55,1,1,1,4,8,4,1,3,7,10,2,13,1,15,1,58,1,4,4,8,1,20,2,
   26,1,2,2,57,1,4,2,4,2,2,3,3,1,30,2,3,1,11,2,57,1,4,5,1,2,4,1,20,2,22,6,1,1,58,1,2,1,1,4,8,1,7,2,
   11,2,30,1,61,1,12,1,50,1,3,1,55,1,1,3,5,3,1,4,7,2,11,2,29,1,58,1,2,1,6,1,5,2,20,2,28,2,57,2,4,4,
   8,1,20,2,29,1,72,1,7,3,1,1,90,1,2,7,11,9,98,1,2,9,9,1,1,7,73,2,27,1,1,1,1,1,55,14,1,5,1,2,5,11,1,
   36,9,1,102,4,1,6,1,2,2,2,25,2,4,3,16,4,13,1,2,2,6,1,15,1,94,1,608,3,946,3,29,2,30,2,30,2,64,2,1,
   7,8,1,2,11,3,1,5,1,45,5,51,1,65,2,34,1,118,3,4,2,9,1,6,3,219,2,2,1,58,1,1,7,1,1,1,1,2,8,6,10,2,1,
   39,1,8,46,2,12,20,4,48,1,1,5,1,1,5,1,40,9,12,2,32,4,2,2,1,3,56,1,1,2,3,1,1,3,58,8,2,2,64,6,82,3,
   1,13,1,7,4,1,6,1,3,2,50,63,13,1,34,101,445,1,1,3,11,3,13,3,13,3,13,2,12,5,8,2,10,1,2,1,2,5,49,5,
   1,10,1,1,13,1,16,13,51,33,2955,2,113,3,125,1,15,1,96,32,47,1,469,1,36,4,3,5,5,1,93,6,93,3,28438,
   1,1250,6,270,1,98,4,1,10,1,1,28,4,80,2,14,34,78,1,23,3,102,4,3,2,8,1,3,1,4,1,25,2,5,1,151,2,26,
   18,13,1,38,8,25,11,46,3,48,1,2,4,2,2,17,1,21,2,66,6,2,2,2,2,12,1,8,1,35,1,11,1,51,1,1,3,2,2,5,2,
   1,1,27,1,14,2,5,2,1,1,100,5,9,3,121,1,2,1,4,1,20272,1,147,17,573,16,3,1,12,16,34,1,2,1,169,1,7,1,
   6,1,11,1,35,1,1,1,47,1,45,2,67,1,21,3,513,1,226,1,149,5,1029,6,1,42,1,9,582,3,1,2,5,4,40,3,4,1,
   165,2,573,4,38,1,26,5,1,1,315,2,24,1,52,6,70,11,49,4,123,1,54,15,41,1,2,2,10,3,49,4,2,2,2,1,4,1,
   10,1,50,3,36,5,1,8,62,1,12,2,52,9,10,4,2,1,95,3,2,1,1,2,6,1,2,1,157,1,3,8,21,2,57,2,3,1,37,7,3,5,
   70,6,13,1,1,1,1,1,14,2,85,8,2,3,1,1,23,1,84,6,1,1,4,2,1,2,238,4,6,2,1,2,27,2,85,8,2,1,1,2,106,1,
   1,1,2,6,1,1,101,1,1,1,2,4,1,5,259,9,1,2,256,2,1,1,4,1,144,4,2,2,4,1,32,10,40,6,2,4,8,1,9,6,2,3,
   46,13,1,2,198,1,1,3,1,1,201,7,1,6,1,1,82,22,2,7,1,2,1,2,122,6,3,1,1,2,1,7,1,1,72,2,3,1,1,1,65,1,
   281,2,11,2,52,5,5,1,1,1,23,1,5333,17,6,15,11464,12,3,3,2496,5,59,7,9,4,508,3,40,2,482,1,63,17,64,
   2,1,2,13,2,16380,4,1,7,1,2,3230,2,1,4,4700,46,2,23,544,3,9,16,2,7,30,4,148,3,1979,55,4,50,8,1,14,
   1,22,5,1,15,1360,7,1,17,2,7,1,2,1,5,5,62,33,1,160,14,368,1,61,4,507,5,254,2,243,1,2,1,7,2,5,1,9,
   1,464,7,109,8,2735,5,789505,1,30,96,128,240]

/-- Boundaries of the `White_Space` characters. -/
def whitespaceBounds : List Nat :=
  [9, 14, 32, 33, 133, 134, 160, 161, 5760, 5761, 8192, 8203, 8232, 8234, 8239, 8240, 8287, 8288,
   12288, 12289]

end Rust.Unicode
