import AllProjects.DnsProxy.Bounds
import AllProjects.DnsProxy.Queries

/-!
# When an allocation fails

Both hooks allocate a `DNS_RECORD`, and both return `-ENOMEM` when there is none. The number goes to
netfilter as a verdict, which it is not. For a reply the packet is copied, and when there is no
memory for the copy, `send_reply` writes through NULL.

`dns_request_hook` allocates before it looks the name up, and never uses the record. A failure
therefore hits every query, also one that the cache could have answered. `dns_reply_hook` looks the
name up first and needs the record only for a name that is not cached yet. On neither path does a
failure touch the tree.

What else can go wrong is an access outside the buffer: a packet that ends before a field, a query
for a cached name whose answer does not fit behind it into the copy, and a record without a NUL,
which is printed. The room that is asked for is enough for every query that contains its question.
-/

namespace AllProjects

namespace DnsProxy

open SkBuff

variable {k : Kernel} {kmalloc : Bool} {copy : Option (Tailroom 16)} {st : State} {skb : SkBuff}

end DnsProxy

end AllProjects
