import Sockrocket.Router.Engine

/-!
# Built-in China-direct rules

`router::china`: private networks, known domestic domains and mainland addresses go direct, everything
else to the proxy.
-/

namespace Sockrocket

open Rust

/-- Private and reserved networks. -/
def privateCidrs : List String :=
  ["10.0.0.0/8", "172.16.0.0/12", "192.168.0.0/16", "127.0.0.0/8", "169.254.0.0/16",
    "100.64.0.0/10", "::1/128", "fc00::/7", "fe80::/10"]

/-- Domain suffixes of mainland services. -/
def chinaDomainSuffixes : List String :=
  ["cn", "xn--fiqs8s", "xn--55qx5d", "xn--io0a7i", "kimi.com", "baidu.com", "bdstatic.com",
    "bdimg.com", "bcebos.com", "baidupcs.com", "qq.com", "gtimg.cn", "qpic.cn", "qlogo.cn",
    "weixin.qq.com", "wechat.com", "tencent.com", "tencent-cloud.net", "tencentcs.com",
    "myqcloud.com", "qcloud.com", "alibaba.com", "alibabacloud.com", "taobao.com", "tmall.com",
    "alipay.com", "aliyun.com", "aliyuncs.com", "alicdn.com", "amap.com", "dingtalk.com", "jd.com",
    "jd.hk", "360buyimg.com", "163.com", "126.com", "126.net", "netease.com", "yeah.net",
    "ydstatic.com", "weibo.com", "weibo.cn", "sinaimg.cn", "sina.com.cn", "sina.cn", "douyin.com",
    "tiktokv.com", "bytedance.com", "bytecdn.cn", "bytegoofy.com", "snssdk.com", "pstatp.com",
    "toutiao.com", "ixigua.com", "huoshan.com", "bilibili.com", "bilivideo.com", "biliapi.com",
    "hdslb.com", "acgvideo.com", "zhihu.com", "zhimg.com", "douban.com", "doubanio.com",
    "xiaomi.com", "mi.com", "miui.com", "xiaomiev.com", "huawei.com", "hicloud.com", "vmall.com",
    "oppo.com", "vivo.com", "meizu.com", "ifeng.com", "sohu.com", "sogou.com", "sogo.com",
    "suning.com", "pinduoduo.com", "meituan.com", "dianping.com", "ctrip.com", "qunar.com",
    "eleme.cn", "youku.com", "tudou.com", "iqiyi.com", "qiyipic.com", "iqiyipic.com", "le.com",
    "kuaishou.com", "kspkg.com", "csdn.net", "jianshu.com", "cnblogs.com", "oschina.net",
    "gitee.com", "coding.net", "zhangmen.com", "youdao.com", "microsoft.cn", "msn.cn",
    "windows.cn", "apple.com.cn", "icloud.com.cn", "ximalaya.com", "lixinger.com", "eastmoney.com",
    "10jqka.com.cn", "cnki.net", "gov.cn", "edu.cn", "mil.cn", "org.cn", "ac.cn", "bj.cn", "sh.cn",
    "tj.cn", "cq.cn", "zj.cn", "js.cn", "gd.cn", "leigod.com", "leigod.cn", "leigodjsq.com",
    "nn.com", "nnbooster.com", "chiphell.com"]

/-- Keywords in the names of mainland services. -/
def chinaDomainKeywords : List String :=
  ["chinaz", "cnzz", "umeng"]

namespace China

/-- `china::parse_cidr`, which leaves the prefix length unchecked. -/
def parseCidr (cidr : Str) : Option (IpAddr × Nat) :=
  match splitn 2 '/' cidr with
  | [address, bits] => do
      let addr ← parseIp address
      let prefixLen ← parseUnsigned 255 bits
      pure (addr, prefixLen)
  | _ => none

end China

/-- Add a rule for every private network. -/
def addPrivateCidrs (set : RuleSet) : RuleSet :=
  privateCidrs.foldl (fun set cidr =>
    match China.parseCidr cidr.toList with
    | some (addr, prefixLen) => set.addRule (.ipCidr addr prefixLen) .direct
    | none => set) set

/-- Add a rule for every domestic domain suffix. -/
def addChinaSuffixes (set : RuleSet) : RuleSet :=
  chinaDomainSuffixes.foldl (fun set suffix =>
    let s := suffix.toList
    set.addRule (.domainSuffix (if startsWith s ".".toList then s else ".".toList ++ s)) .direct) set

/-- Add a rule for every domestic keyword. -/
def addChinaKeywords (set : RuleSet) : RuleSet :=
  chinaDomainKeywords.foldl (fun set keyword => set.addRule (.domainKeyword keyword.toList) .direct) set

/-- `china_direct_ruleset`. -/
def chinaDirectRuleset : RuleSet :=
  let set := addPrivateCidrs RuleSet.new
  let set := set.addRule .domesticHint .direct
  let set := addChinaKeywords (addChinaSuffixes set)
  let set := set.addRule (.geoIp "CN".toList) .direct
  set.addRule .matchAll .proxy

end Sockrocket
